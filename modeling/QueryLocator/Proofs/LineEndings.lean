import QueryLocator.Proofs.LineOffsets

/-! # One kind of line terminator

`unifyTerminators` replaces every terminator of a text by a line feed.  The text keeps its lines and
their contents; only byte offsets change, by an amount that grows along the text.

Two offsets correspond when they are cut at the same place of the text, before and after
(`SameCut`).  Corresponding offsets are in the same order and have the same positions.
-/
namespace QueryLocator

open Text

/-- Replaces every line terminator by a line feed; a carriage return and the line feed behind it are
one terminator. -/
def unifyTerminators : List Char → List Char
  | [] => []
  | '\r' :: '\n' :: rest => '\n' :: unifyTerminators rest
  | c :: rest => (if c = '\r' then '\n' else c) :: unifyTerminators rest

@[simp] theorem unifyTerminators_nil : unifyTerminators [] = [] := rfl

@[simp] theorem unifyTerminators_pair (rest : List Char) :
    unifyTerminators ('\r' :: '\n' :: rest) = '\n' :: unifyTerminators rest := rfl

theorem unifyTerminators_cons {c : Char} {rest : List Char} (h : c = '\r' → rest.head? ≠ some '\n') :
    unifyTerminators (c :: rest) = (if c = '\r' then '\n' else c) :: unifyTerminators rest := by
  rw [unifyTerminators]
  rintro r rfl rfl
  exact h rfl rfl

theorem unifyTerminators_of_ne {c : Char} (rest : List Char) (h : c ≠ '\r') :
    unifyTerminators (c :: rest) = c :: unifyTerminators rest := by
  rw [unifyTerminators_cons fun hc => absurd hc h, if_neg h]

/-- At a clean cut the two parts can be unified on their own. -/
theorem unifyTerminators_append {pre suf : List Char} (h : CleanCut pre suf) :
    unifyTerminators (pre ++ suf) = unifyTerminators pre ++ unifyTerminators suf := by
  fun_induction unifyTerminators pre with
  | case1 => rfl
  | case2 rest ih => simp [ih h.tail.tail]
  | case3 c rest hpair ih =>
    have hhead : c = '\r' → (rest ++ suf).head? ≠ some '\n' := by
      rintro rfl hhead
      cases rest with
      | nil => exact h rfl hhead
      | cons d rest =>
        obtain rfl : d = '\n' := Option.some.inj hhead
        exact hpair rest rfl rfl
    rw [List.cons_append, unifyTerminators_cons hhead, ih h.tail, List.cons_append]

/-- A text that no line ends in stays as it is. -/
theorem unifyTerminators_of_content {text : List Char} (h : ∀ c ∈ text, endsLine c = false) :
    unifyTerminators text = text := by
  induction text with
  | nil => rfl
  | cons c rest ih =>
    have hc : c ≠ '\r' := by
      rintro rfl
      exact absurd (h '\r' (List.mem_cons_self ..)) (by decide)
    rw [unifyTerminators_of_ne rest hc, ih fun d hd => h d (List.mem_cons_of_mem c hd)]

/-- Unifying leaves no carriage return. -/
theorem ne_of_mem_unifyTerminators {text : List Char} {c : Char} (h : c ∈ unifyTerminators text) :
    c ≠ '\r' := by
  fun_induction unifyTerminators text with
  | case1 => simp at h
  | case2 rest ih =>
    rcases List.mem_cons.mp h with rfl | h
    · decide
    · exact ih h
  | case3 d rest _ ih =>
    rcases List.mem_cons.mp h with rfl | h
    · split
      · decide
      · assumption
    · exact ih h

/-- Unifying brings in nothing but line feeds. -/
theorem mem_of_mem_unifyTerminators {text : List Char} {c : Char} (h : c ∈ unifyTerminators text) :
    c ∈ text ∨ (c = '\n' ∧ ∃ d ∈ text, endsLine d = true) := by
  fun_induction unifyTerminators text with
  | case1 => simp at h
  | case2 rest ih =>
    rcases List.mem_cons.mp h with rfl | h
    · exact Or.inl (by simp)
    · rcases ih h with h | ⟨rfl, d, hd, hends⟩
      · exact Or.inl (by simp [h])
      · exact Or.inl (by simp)
  | case3 d rest _ ih =>
    rcases List.mem_cons.mp h with rfl | h
    · split
      · rename_i hd
        exact Or.inr ⟨rfl, d, by simp, by rw [hd]; rfl⟩
      · exact Or.inl (by simp)
    · rcases ih h with h | ⟨rfl, e, he, hends⟩
      · exact Or.inl (by simp [h])
      · exact Or.inr ⟨rfl, e, by simp [he], hends⟩

/-- The end of a line becomes a line feed. -/
theorem exists_unifyTerminators_of_endsLine {c : Char} (h : endsLine c = true) (rest : List Char) :
    ∃ behind, unifyTerminators (c :: rest) = '\n' :: behind := by
  simp only [endsLine, Bool.or_eq_true, beq_iff_eq] at h
  rcases h with rfl | rfl
  · exact ⟨_, unifyTerminators_of_ne rest (by decide)⟩
  · cases rest with
    | nil => exact ⟨[], rfl⟩
    | cons d rest =>
      by_cases hd : d = '\n'
      · subst hd
        exact ⟨_, unifyTerminators_pair rest⟩
      · exact ⟨_, unifyTerminators_cons (by simpa using hd)⟩

theorem any_endsLine_unifyTerminators (text : List Char) :
    (unifyTerminators text).any endsLine = text.any endsLine := by
  fun_induction unifyTerminators text with
  | case1 => rfl
  | case2 rest ih => simp [endsLine]
  | case3 c rest _ ih =>
    rw [List.any_cons, List.any_cons, ih]
    by_cases hc : c = '\r'
    · subst hc
      rfl
    · rw [if_neg hc]

theorem cleanCut_unifyTerminators (pre suf : List Char) : CleanCut (unifyTerminators pre) suf := by
  intro hlast
  exact absurd rfl (ne_of_mem_unifyTerminators (List.mem_of_getLast? hlast))

theorem unifyTerminators_eq_nil {text : List Char} : unifyTerminators text = [] ↔ text = [] := by
  fun_induction unifyTerminators text <;> simp

/-! ## Lines -/

/-- The line with a line feed for its terminator, if it has one. -/
def Line.unify (line : Line) : Line :=
  ⟨line.content, if line.terminator = [] then [] else ['\n']⟩

@[simp] theorem Line.unify_content (line : Line) : line.unify.content = line.content := rfl

/-- **The lines of a text keep their contents.** -/
theorem splitLines_unifyTerminators (text : List Char) :
    splitLines (unifyTerminators text) = (splitLines text).map Line.unify := by
  fun_induction splitLines text with
  | case1 => rfl
  | case2 rest ih =>
    rw [unifyTerminators_pair, splitLines_break rfl (by simp), ih]
    rfl
  | case3 c rest hpair hc ih =>
    have hhead : c = '\r' → rest.head? ≠ some '\n' := by
      rintro rfl hhead
      obtain ⟨r, rfl⟩ := List.head?_eq_some_iff.mp hhead
      exact hpair r rfl rfl
    have hfeed : (if c = '\r' then '\n' else c) = '\n' := by
      simp only [endsLine, Bool.or_eq_true, beq_iff_eq] at hc
      rcases hc with rfl | rfl <;> rfl
    rw [unifyTerminators_cons hhead, hfeed, splitLines_break rfl (by simp), ih]
    rfl
  | case4 c rest hpair hc ih =>
    have hne : c ≠ '\r' := by
      rintro rfl
      exact hc rfl
    rw [unifyTerminators_of_ne rest hne, splitLines_push (Bool.eq_false_iff.mpr hc), ih]
    cases h : splitLines rest with
    | nil => exact absurd h (splitLines_ne_nil rest)
    | cons first others => rfl

/-- What stands before a column of a line, unified. -/
theorem unifyTerminators_upTo {text : List Char} {before after : List Line} {line : Line}
    (h : splitLines text = before ++ line :: after) (column : Nat) :
    unifyTerminators (before.flatMap Line.chars ++ line.content.take column) =
      (before.map Line.unify).flatMap Line.chars ++ line.content.take column := by
  obtain ⟨suf, -, -, hlines⟩ := splitLines_upTo h column
  rw [← splitLines_chars (unifyTerminators _), splitLines_unifyTerminators, hlines]
  simp [Line.unify]

namespace LineIndex
variable {text : List Char}

theorem lineCount_unifyTerminators (text : List Char) :
    (ofChars (unifyTerminators text)).lineCount = (ofChars text).lineCount := by
  rw [lineCount_eq, lineCount_eq, splitLines_unifyTerminators, List.length_map]

/-- A line of the text and what it is unified to. -/
theorem splitLines_unifyTerminators_eq {before after : List Line} {line : Line}
    (h : splitLines text = before ++ line :: after) :
    splitLines (unifyTerminators text) =
      before.map Line.unify ++ line.unify :: after.map Line.unify := by
  rw [splitLines_unifyTerminators, h, List.map_append, List.map_cons]

/-- **The lines that the index gives are the same.** -/
theorem lineText_unifyTerminators (text : List Char) (i : Nat) :
    (ofChars (unifyTerminators text)).lineText i = (ofChars text).lineText i := by
  by_cases hi : i < (ofChars text).lineCount
  · obtain ⟨before, line, after, hline, rfl⟩ := exists_line hi
    have hunified := lineText_eq (splitLines_unifyTerminators_eq hline)
    rw [List.length_map] at hunified
    rw [hunified, lineText_eq hline, Line.unify_content]
  · have hnone {text : List Char} (h : ¬i < (ofChars text).lineCount) :
        (ofChars text).lineText i = none := by
      have hstart : (ofChars text).lineStart i = none :=
        List.getElem?_eq_none (Nat.le_of_not_lt h)
      rw [lineText, hstart]
    rw [hnone hi, hnone (by rwa [lineCount_unifyTerminators])]

theorem lineLength_unifyTerminators (text : List Char) (i : Nat) :
    (ofChars (unifyTerminators text)).lineLength i = (ofChars text).lineLength i := by
  rw [lineLength, lineLength, lineText_unifyTerminators]

/-- A cursor behind a text stands at the same position when the text is unified. -/
theorem caret_unifyTerminators (pre : List Char) : caret (unifyTerminators pre) = caret pre := by
  have hne := splitLines_ne_nil pre
  simp only [caret, splitLines_unifyTerminators, List.length_map, List.getLast_map,
    Line.unify_content]

end LineIndex

/-! ## Offsets that correspond -/

/-- Two offsets correspond when the first cuts a text at some place, not inside a terminator, and the
second cuts the unified text at the same place. -/
def SameCut (text : List Char) (x y : Nat) : Prop :=
  ∃ pre suf, text = pre ++ suf ∧ CleanCut pre suf ∧ x = byteSize pre ∧
    y = byteSize (unifyTerminators pre)

namespace SameCut
variable {text : List Char} {x y x' y' : Nat}

/-- A later cut stays later. -/
theorem lt_of_lt (h : SameCut text x x') (h' : SameCut text y y') (hlt : x < y) : x' < y' := by
  obtain ⟨pre, suf, rfl, hcut, rfl, rfl⟩ := h
  obtain ⟨pre', suf', htext, -, rfl, rfl⟩ := h'
  obtain ⟨mid, rfl⟩ : pre <+: pre' :=
    prefix_of_byteSize_le ⟨suf, rfl⟩ ⟨suf', htext.symm⟩ (Nat.le_of_lt hlt)
  rw [List.append_assoc] at htext
  have hsuf := List.append_cancel_left htext
  rw [hsuf] at hcut
  have hmid : mid ≠ [] := by
    rintro rfl
    simp at hlt
  have := byteSize_pos (mt unifyTerminators_eq_nil.mp hmid)
  rw [unifyTerminators_append hcut.of_append, byteSize_append]
  omega

/-- A cut has one counterpart. -/
theorem eq_of_eq (h : SameCut text x x') (h' : SameCut text y y') (heq : x = y) : x' = y' := by
  obtain ⟨pre, suf, rfl, -, rfl, rfl⟩ := h
  obtain ⟨pre', suf', htext, -, rfl, rfl⟩ := h'
  rw [eq_of_byteSize_eq ⟨suf, rfl⟩ ⟨suf', htext.symm⟩ heq]

theorem lt_iff (h : SameCut text x x') (h' : SameCut text y y') : x < y ↔ x' < y' := by
  rcases Nat.lt_trichotomy x y with hlt | heq | hlt
  · have := h.lt_of_lt h' hlt
    omega
  · have := h.eq_of_eq h' heq
    omega
  · have := h'.lt_of_lt h hlt
    omega

/-- **Corresponding offsets have the same position.** -/
theorem position_eq (h : SameCut text x y) :
    (LineIndex.ofChars text).position x =
      (LineIndex.ofChars (unifyTerminators text)).position y := by
  obtain ⟨pre, suf, rfl, hcut, rfl, rfl⟩ := h
  rw [unifyTerminators_append hcut, LineIndex.position_of_cleanCut hcut,
    LineIndex.position_of_cleanCut (cleanCut_unifyTerminators pre _),
    LineIndex.caret_unifyTerminators]

/-- The offsets of a column of a line correspond. -/
theorem upTo {before after : List Line} {line : Line}
    (h : splitLines text = before ++ line :: after) (column : Nat) :
    SameCut text (byteSize (before.flatMap Line.chars ++ line.content.take column))
      (byteSize ((before.map Line.unify).flatMap Line.chars ++ line.unify.content.take column)) := by
  obtain ⟨suf, htext, hcut, -⟩ := splitLines_upTo h column
  exact ⟨_, suf, htext, hcut, rfl, by rw [unifyTerminators_upTo h, Line.unify_content]⟩

/-- The offsets at which a line starts correspond. -/
theorem lineStart {before after : List Line} {line : Line}
    (h : splitLines text = before ++ line :: after) :
    SameCut text (byteSize (before.flatMap Line.chars))
      (byteSize ((before.map Line.unify).flatMap Line.chars)) := by
  simpa only [List.take_zero, List.append_nil] using upTo h 0

end SameCut

end QueryLocator
