import QueryLocator.LineIndex
import QueryLocator.Proofs.ByteCuts

/-! # The lines of a text

`splitLines` cuts a text into lines without counting a single byte: a line is its content and the
terminator that ends it, and only the last line has none.  Put together the lines are the text
(`splitLines_chars`).

A cut of a text is *clean* when it does not fall between the two halves of a terminator.  The lines
of a text are then those of the two parts, glued at the cut (`splitLines_append`).
-/
namespace QueryLocator

open Text

/-- A line of a text. -/
structure Line where
  content : List Char
  /-- What ends the line; nothing for the last one. -/
  terminator : List Char
  deriving DecidableEq, Repr

namespace Line

/-- The line as it stands in the text. -/
def chars (line : Line) : List Char :=
  line.content ++ line.terminator

@[simp] theorem chars_mk (content terminator : List Char) :
    (Line.mk content terminator).chars = content ++ terminator := rfl

/-- Puts a character in front of the first line. -/
def push (c : Char) : List Line → List Line
  | [] => [⟨[c], []⟩]
  | first :: others => ⟨c :: first.content, first.terminator⟩ :: others

end Line

/-- Whether a character is one of the two that end lines. -/
def endsLine (c : Char) : Bool :=
  c == '\n' || c == '\r'

/-- The lines of a text, in order.  A text that ends in a terminator has an empty last line. -/
def splitLines : List Char → List Line
  | [] => [⟨[], []⟩]
  | '\r' :: '\n' :: rest => ⟨[], ['\r', '\n']⟩ :: splitLines rest
  | c :: rest => if endsLine c then ⟨[], [c]⟩ :: splitLines rest else Line.push c (splitLines rest)

@[simp] theorem splitLines_nil : splitLines [] = [⟨[], []⟩] := rfl

theorem splitLines_ne_nil (text : List Char) : splitLines text ≠ [] := by
  fun_induction splitLines text with
  | case1 => simp
  | case2 => simp
  | case3 => simp
  | case4 c rest _ _ ih => cases h : splitLines rest <;> simp [Line.push]

theorem splitLines_break {c : Char} {rest : List Char} (hc : endsLine c = true)
    (hpair : c = '\r' → rest.head? ≠ some '\n') :
    splitLines (c :: rest) = ⟨[], [c]⟩ :: splitLines rest := by
  rw [splitLines]
  · rw [if_pos hc]
  · rintro r rfl rfl
    exact hpair rfl rfl

theorem splitLines_push {c : Char} {rest : List Char} (hc : endsLine c = false) :
    splitLines (c :: rest) = Line.push c (splitLines rest) := by
  rw [splitLines]
  · rw [hc]
    rfl
  · rintro r rfl rfl
    simp [endsLine] at hc

/-- **Lines tile the text.** -/
theorem splitLines_chars (text : List Char) : (splitLines text).flatMap Line.chars = text := by
  fun_induction splitLines text with
  | case1 => rfl
  | case2 rest ih => simp [ih]
  | case3 c rest _ _ ih => simp [ih]
  | case4 c rest _ _ ih =>
    cases h : splitLines rest with
    | nil => exact absurd h (splitLines_ne_nil rest)
    | cons first others =>
      rw [h] at ih
      simpa [Line.push, Line.chars] using ih

/-! ## What a line may look like -/

/-- A line holds no terminator inside, and what ends it is one of the three terminators or, at the
end of the text, nothing. -/
structure Line.Proper (line : Line) : Prop where
  content : ∀ c ∈ line.content, endsLine c = false
  terminator : line.terminator ∈ [[], ['\n'], ['\r'], ['\r', '\n']]

theorem splitLines_proper (text : List Char) : ∀ line ∈ splitLines text, line.Proper := by
  fun_induction splitLines text with
  | case1 => simpa using ⟨by simp, by simp⟩
  | case2 rest ih =>
    simp only [List.mem_cons, forall_eq_or_imp]
    exact ⟨⟨by simp, by simp⟩, ih⟩
  | case3 c rest hpair hc ih =>
    simp only [List.mem_cons, forall_eq_or_imp]
    refine ⟨⟨by simp, ?_⟩, ih⟩
    simp only [endsLine, Bool.or_eq_true, beq_iff_eq] at hc
    rcases hc with rfl | rfl <;> simp
  | case4 c rest hpair hc ih =>
    cases h : splitLines rest with
    | nil => exact absurd h (splitLines_ne_nil rest)
    | cons first others =>
      rw [h] at ih
      simp only [Line.push, List.mem_cons, forall_eq_or_imp] at ih ⊢
      refine ⟨⟨?_, ih.1.terminator⟩, ih.2⟩
      intro d hd
      rcases List.mem_cons.mp hd with rfl | hd
      · exact Bool.eq_false_iff.mpr hc
      · exact ih.1.content d hd

/-- Exactly the last line has no terminator. -/
theorem splitLines_terminator_eq_nil {text : List Char} {before after : List Line} {line : Line}
    (h : splitLines text = before ++ line :: after) : line.terminator = [] ↔ after = [] := by
  fun_induction splitLines text generalizing before line with
  | case1 =>
    obtain ⟨rfl, rfl, rfl⟩ : before = [] ∧ line = ⟨[], []⟩ ∧ after = [] := by
      cases before <;> simp_all
    simp
  | case2 rest ih =>
    cases before with
    | nil =>
      obtain ⟨rfl, rfl⟩ := List.cons.inj h
      simp [splitLines_ne_nil]
    | cons first before => exact ih (List.cons.inj h).2
  | case3 c rest _ _ ih =>
    cases before with
    | nil =>
      obtain ⟨rfl, rfl⟩ := List.cons.inj h
      simp [splitLines_ne_nil]
    | cons first before => exact ih (List.cons.inj h).2
  | case4 c rest _ _ ih =>
    cases hrest : splitLines rest with
    | nil => exact absurd hrest (splitLines_ne_nil rest)
    | cons first others =>
      rw [hrest, Line.push] at h
      cases before with
      | nil =>
        obtain ⟨rfl, rfl⟩ := List.cons.inj h
        exact @ih [] first hrest
      | cons _ before =>
        rw [(List.cons.inj h).2] at hrest
        exact @ih (first :: before) line hrest

/-- What stands in front of a line ends in a terminator. -/
theorem endsLine_getLast_before {text : List Char} {before after : List Line} {line : Line}
    (h : splitLines text = before ++ line :: after) {c : Char}
    (hc : (before.flatMap Line.chars).getLast? = some c) : endsLine c = true := by
  rcases List.eq_nil_or_concat before with rfl | ⟨before, last, rfl⟩
  · simp at hc
  · rw [List.concat_eq_append] at h hc
    have hproper : last.Proper := splitLines_proper text last (by simp [h])
    have hterm : last.terminator ≠ [] := by
      rw [Ne, @splitLines_terminator_eq_nil text before (line :: after) last (by simp [h])]
      simp
    have hlast : last.terminator.getLast? = some c := by
      rw [List.flatMap_append, List.flatMap_singleton, Line.chars, ← List.append_assoc,
        List.getLast?_append, List.getLast?_eq_some_getLast hterm, Option.some_or] at hc
      rw [List.getLast?_eq_some_getLast hterm, hc]
    have hcases := hproper.terminator
    simp only [List.mem_cons, List.not_mem_nil, or_false] at hcases
    rcases hcases with ht | ht | ht | ht
    · exact absurd ht hterm
    all_goals
      rw [ht] at hlast
      obtain rfl := Option.some.inj hlast
      rfl

/-- Taking the terminator off a line leaves its content. -/
theorem Line.Proper.dropTerminator {line : Line} (h : line.Proper) :
    LineIndex.dropTerminator line.chars = line.content := by
  have hlast : ∀ c, endsLine c = true → line.content.getLast? ≠ some c := by
    intro c hc hlast
    rw [h.content c (List.mem_of_getLast? hlast)] at hc
    exact Bool.false_ne_true hc
  have hlf := hlast '\n' rfl
  have hcr := hlast '\r' rfl
  have hterm := h.terminator
  simp only [List.mem_cons, List.not_mem_nil, or_false] at hterm
  rcases hterm with ht | ht | ht | ht <;>
    simp [LineIndex.dropTerminator, LineIndex.dropLastIf, Line.chars, ht, hlf, hcr,
      List.getLast?_append]

/-- A text without terminators is one line. -/
theorem splitLines_of_content {text : List Char} (h : ∀ c ∈ text, endsLine c = false) :
    splitLines text = [⟨text, []⟩] := by
  induction text with
  | nil => rfl
  | cons c rest ih =>
    rw [splitLines_push (h c (List.mem_cons_self ..)),
      ih (fun d hd => h d (List.mem_cons_of_mem c hd))]
    rfl

/-! ## Clean cuts -/

/-- A cut that does not fall between the two halves of a terminator. -/
def CleanCut (pre suf : List Char) : Prop :=
  pre.getLast? = some '\r' → suf.head? ≠ some '\n'

/-- A cut that is not clean has the halves of a terminator at its sides. -/
theorem exists_of_not_cleanCut {pre suf : List Char} (h : ¬CleanCut pre suf) :
    ∃ front back, pre = front ++ ['\r'] ∧ suf = '\n' :: back := by
  obtain ⟨hlast, hhead⟩ := Classical.not_imp.mp h
  obtain ⟨back, rfl⟩ := List.head?_eq_some_iff.mp (Classical.not_not.mp hhead)
  obtain ⟨front, rfl⟩ := List.getLast?_eq_some_iff.mp hlast
  exact ⟨front, back, rfl, rfl⟩

theorem cleanCut_nil_left (suf : List Char) : CleanCut [] suf := by
  simp [CleanCut]

theorem cleanCut_nil_right (pre : List Char) : CleanCut pre [] := by
  simp [CleanCut]

theorem cleanCut_append_iff {a b suf : List Char} (hne : b ≠ []) :
    CleanCut (a ++ b) suf ↔ CleanCut b suf := by
  obtain ⟨c, b, rfl⟩ := List.exists_cons_of_ne_nil hne
  simp [CleanCut, List.getLast?_append]

theorem cleanCut_cons_iff {c : Char} {pre suf : List Char} (hne : pre ≠ []) :
    CleanCut (c :: pre) suf ↔ CleanCut pre suf :=
  @cleanCut_append_iff [c] pre suf hne

/-- Only the first character behind a cut matters. -/
theorem CleanCut.of_append {pre a b : List Char} (h : CleanCut pre (a ++ b)) : CleanCut pre a := by
  cases a with
  | nil => exact cleanCut_nil_right pre
  | cons c a => exact h

/-- A cut behind a character that ends no line is clean. -/
theorem cleanCut_of_content {pre : List Char} (h : ∀ c ∈ pre, endsLine c = false)
    (suf : List Char) : CleanCut pre suf := by
  intro hlast
  exact absurd (h '\r' (List.mem_of_getLast? hlast)) (by decide)

theorem CleanCut.tail {c : Char} {pre suf : List Char} (h : CleanCut (c :: pre) suf) :
    CleanCut pre suf := by
  cases pre with
  | nil => exact cleanCut_nil_left suf
  | cons d pre => exact (cleanCut_cons_iff (by simp)).mp h

/-- **Lines of two parts of a text.**  At a clean cut the last line of the first part, which has no
terminator, is continued by the first line of the second. -/
theorem splitLines_append {pre suf : List Char} (h : CleanCut pre suf) :
    ∃ before content first others,
      splitLines pre = before ++ [⟨content, []⟩] ∧ splitLines suf = first :: others ∧
        splitLines (pre ++ suf) =
          before ++ ⟨content ++ first.content, first.terminator⟩ :: others := by
  fun_induction splitLines pre with
  | case1 =>
    obtain ⟨first, others, hsuf⟩ := List.exists_cons_of_ne_nil (splitLines_ne_nil suf)
    exact ⟨[], [], first, others, rfl, hsuf, hsuf⟩
  | case2 rest ih =>
    obtain ⟨before, content, first, others, h₁, h₂, h₃⟩ := ih h.tail.tail
    exact ⟨⟨[], ['\r', '\n']⟩ :: before, content, first, others, by rw [h₁]; rfl, h₂,
      by simp [splitLines, h₃]⟩
  | case3 c rest hpair hc ih =>
    -- what follows does not complete the terminator, even where the cut is right behind it
    have hbreak : c = '\r' → (rest ++ suf).head? ≠ some '\n' := by
      rintro rfl hhead
      cases rest with
      | nil => exact h rfl hhead
      | cons d rest =>
        obtain rfl : d = '\n' := Option.some.inj hhead
        exact hpair rest rfl rfl
    obtain ⟨before, content, first, others, h₁, h₂, h₃⟩ := ih h.tail
    refine ⟨⟨[], [c]⟩ :: before, content, first, others, by rw [h₁]; rfl, h₂, ?_⟩
    rw [List.cons_append, splitLines_break hc hbreak, h₃]
    rfl
  | case4 c rest hpair hc ih =>
    obtain ⟨before, content, first, others, h₁, h₂, h₃⟩ := ih h.tail
    rw [List.cons_append, splitLines_push (Bool.eq_false_iff.mpr hc), h₁, h₃]
    cases before with
    | nil => exact ⟨[], c :: content, first, others, rfl, h₂, rfl⟩
    | cons line before =>
      exact ⟨⟨c :: line.content, line.terminator⟩ :: before, content, first, others, rfl, h₂, rfl⟩

/-- What stands behind a line that is not the last. -/
theorem exists_behind_line {text : List Char} {first : Line} {others : List Line}
    (h : splitLines text = first :: others) (hne : others ≠ []) :
    ∃ rest, text = first.chars ++ rest ∧ splitLines rest = others ∧ CleanCut first.chars rest := by
  fun_induction splitLines text generalizing first with
  | case1 => simp_all
  | case2 rest ih =>
    obtain ⟨rfl, rfl⟩ := List.cons.inj h
    exact ⟨rest, rfl, rfl, by simp [CleanCut]⟩
  | case3 c rest hpair hc ih =>
    obtain ⟨rfl, rfl⟩ := List.cons.inj h
    refine ⟨rest, rfl, rfl, ?_⟩
    intro hcr hhead
    obtain ⟨r, rfl⟩ := List.head?_eq_some_iff.mp hhead
    exact hpair r (Option.some.inj hcr) rfl
  | case4 c rest hpair hc ih =>
    cases hrest : splitLines rest with
    | nil => exact absurd hrest (splitLines_ne_nil rest)
    | cons line others' =>
      rw [hrest, Line.push] at h
      obtain ⟨rfl, rfl⟩ := List.cons.inj h
      obtain ⟨behind, rfl, hbehind, hclean⟩ := ih hrest
      refine ⟨behind, rfl, hbehind, ?_⟩
      by_cases hchars : line.chars = []
      · have hcut : CleanCut [c] behind := cleanCut_of_content (by simpa using hc) behind
        rwa [← hchars] at hcut
      · exact (cleanCut_cons_iff hchars).mpr hclean

/-- A line with its terminator, taken alone, is followed by one empty line. -/
theorem Line.Proper.splitLines_chars {line : Line} (h : line.Proper) (hne : line.terminator ≠ []) :
    splitLines line.chars = [line, ⟨[], []⟩] := by
  have hterm := h.terminator
  simp only [List.mem_cons, List.not_mem_nil, or_false] at hterm
  have hcut : CleanCut line.content line.terminator := cleanCut_of_content h.content _
  obtain ⟨before, content, first, others, h₁, h₂, h₃⟩ := splitLines_append hcut
  rw [splitLines_of_content h.content] at h₁
  obtain ⟨rfl, rfl⟩ : before = [] ∧ line.content = content := by
    cases before <;> simp_all
  rw [Line.chars, h₃]
  rcases hterm with ht | ht | ht | ht
  · exact absurd ht hne
  all_goals
    rw [ht] at h₂
    obtain ⟨rfl, rfl⟩ := List.cons.inj h₂
    simp [← ht]

/-- **A cursor never stands inside a terminator.**  What stands before a column of a line has the
lines before it and, as its last line, the content up to the column; and it is cut off cleanly. -/
theorem splitLines_upTo {text : List Char} {before after : List Line} {line : Line}
    (h : splitLines text = before ++ line :: after) (column : Nat) :
    ∃ suf, text = before.flatMap Line.chars ++ line.content.take column ++ suf ∧
      CleanCut (before.flatMap Line.chars ++ line.content.take column) suf ∧
      splitLines (before.flatMap Line.chars ++ line.content.take column) =
        before ++ [⟨line.content.take column, []⟩] := by
  induction before generalizing text with
  | nil =>
    have hline : line.Proper := splitLines_proper text line (by simp [h])
    have hcontent : ∀ c ∈ line.content.take column, endsLine c = false :=
      fun c hc => hline.content c (List.mem_of_mem_take hc)
    have htext := splitLines_chars text
    rw [h] at htext
    refine ⟨line.content.drop column ++ (line.terminator ++ after.flatMap Line.chars), ?_,
      cleanCut_of_content hcontent _, splitLines_of_content hcontent⟩
    rw [← htext, List.append_assoc, ← List.append_assoc (line.content.take column),
      List.take_append_drop]
    simp [Line.chars]
  | cons first before ih =>
    rw [List.cons_append] at h
    obtain ⟨rest, rfl, hrest, hclean⟩ := exists_behind_line h (by simp)
    have hfirst : first.Proper :=
      splitLines_proper (first.chars ++ rest) first (h ▸ List.mem_cons_self ..)
    have hterm : first.terminator ≠ [] := by
      rw [Ne, @splitLines_terminator_eq_nil _ [] _ first h]
      simp
    -- the text up to the column begins with the first line, which is cut off cleanly
    obtain ⟨suf, rfl, hcut, hlines⟩ := ih hrest
    rw [List.flatMap_cons, List.append_assoc first.chars]
    generalize before.flatMap Line.chars ++ line.content.take column = pre at *
    refine ⟨suf, by rw [List.append_assoc], ?_, ?_⟩
    · cases pre with
      | nil => simpa using hclean
      | cons c pre => exact (cleanCut_append_iff (by simp)).mpr hcut
    · obtain ⟨before', content, head, others, h₁, h₂, h₃⟩ := splitLines_append hclean.of_append
      rw [hfirst.splitLines_chars hterm] at h₁
      have h₁ : [first] ++ [⟨[], []⟩] = before' ++ [⟨content, []⟩] := h₁
      obtain ⟨rfl, hlast⟩ := List.append_inj' h₁ rfl
      obtain rfl : [] = content := congrArg Line.content (List.cons.inj hlast).1
      rw [h₃]
      exact congrArg (first :: ·) (h₂.symm.trans hlines)

end QueryLocator
