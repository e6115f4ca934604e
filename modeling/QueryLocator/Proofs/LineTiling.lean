import QueryLocator.Proofs.LineOffsets

/-! # Lines tile the text

The grammar of the query language knows three line terminators: a line feed, a carriage return with
no line feed behind it, and a carriage return with a line feed.  A *tiling* cuts a text by these rules
and by nothing else: each line is its content, in which no line ends, and the terminator behind it,
and only the last line has none.

A text has exactly one tiling (`tiling_splitLines`, `Tiling.eq_splitLines`), and the line index reads
its lines (`index_reads_tiling`).
-/
namespace QueryLocator

open Text

/-- What ends a line, in front of the rest of the text. -/
inductive Terminates : List Char → List Char → Prop where
  | lineFeed (rest : List Char) : Terminates ['\n'] rest
  /-- A carriage return in front of a line feed is only the first half of a terminator. -/
  | carriageReturn {rest : List Char} (hrest : rest.head? ≠ some '\n') : Terminates ['\r'] rest
  | pair (rest : List Char) : Terminates ['\r', '\n'] rest

/-- Characters among which no line ends. -/
def Unbroken (content : List Char) : Prop :=
  ∀ c ∈ content, c ≠ '\n' ∧ c ≠ '\r'

/-- A text cut into lines. -/
inductive Tiling : List Char → List Line → Prop where
  | last {content : List Char} (hcontent : Unbroken content) : Tiling content [⟨content, []⟩]
  | line {content terminator rest : List Char} {lines : List Line} (hcontent : Unbroken content)
      (hterminator : Terminates terminator rest) (hrest : Tiling rest lines) :
      Tiling (content ++ terminator ++ rest) (⟨content, terminator⟩ :: lines)

theorem endsLine_eq_false_iff {c : Char} : endsLine c = false ↔ c ≠ '\n' ∧ c ≠ '\r' := by
  simp [endsLine]

theorem unbroken_iff {content : List Char} :
    Unbroken content ↔ ∀ c ∈ content, endsLine c = false := by
  constructor
  · intro h c hc
    exact endsLine_eq_false_iff.mpr (h c hc)
  · intro h c hc
    exact endsLine_eq_false_iff.mp (h c hc)

theorem Unbroken.cons {c : Char} {content : List Char} (hc : endsLine c = false)
    (h : Unbroken content) : Unbroken (c :: content) := by
  intro d hd
  rcases List.mem_cons.mp hd with rfl | hd
  · exact endsLine_eq_false_iff.mp hc
  · exact h d hd

/-- A terminator with nothing in front of it is a line of its own. -/
theorem splitLines_terminator {terminator rest : List Char} (h : Terminates terminator rest) :
    splitLines (terminator ++ rest) = ⟨[], terminator⟩ :: splitLines rest := by
  cases h with
  | lineFeed => exact splitLines_break rfl (by simp)
  | carriageReturn hrest => exact splitLines_break rfl fun _ => hrest
  | pair => rfl

/-- Content in front of a text goes to the first line. -/
theorem splitLines_content_append {content text : List Char} {first : Line} {others : List Line}
    (hcontent : Unbroken content) (h : splitLines text = first :: others) :
    splitLines (content ++ text) = ⟨content ++ first.content, first.terminator⟩ :: others := by
  induction content with
  | nil => exact h
  | cons c content ih =>
    have hc : endsLine c = false := unbroken_iff.mp hcontent c (List.mem_cons_self ..)
    rw [List.cons_append, splitLines_push hc, ih fun d hd => hcontent d (List.mem_cons_of_mem c hd)]
    rfl

/-- **There is no other tiling.** -/
theorem Tiling.eq_splitLines {text : List Char} {lines : List Line} (h : Tiling text lines) :
    lines = splitLines text := by
  induction h with
  | last hcontent => rw [splitLines_of_content (unbroken_iff.mp hcontent)]
  | line hcontent hterminator hrest ih =>
    rw [List.append_assoc, splitLines_content_append hcontent (splitLines_terminator hterminator), ih,
      List.append_nil]

/-- A character that ends no line can be put in front of a tiling. -/
theorem Tiling.push {c : Char} {text : List Char} {first : Line} {others : List Line}
    (hc : endsLine c = false) (h : Tiling text (first :: others)) :
    Tiling (c :: text) (⟨c :: first.content, first.terminator⟩ :: others) := by
  cases h with
  | last hcontent => exact .last (hcontent.cons hc)
  | line hcontent hterminator hrest => exact .line (hcontent.cons hc) hterminator hrest

/-- **Every text has a tiling.** -/
theorem tiling_splitLines (text : List Char) : Tiling text (splitLines text) := by
  have hnone : Unbroken [] := by simp [Unbroken]
  fun_induction splitLines text with
  | case1 => exact .last hnone
  | case2 rest ih => exact .line hnone (.pair rest) ih
  | case3 c rest hpair hc ih =>
    have hterminator : Terminates [c] rest := by
      simp only [endsLine, Bool.or_eq_true, beq_iff_eq] at hc
      rcases hc with rfl | rfl
      · exact .lineFeed rest
      · refine .carriageReturn fun hhead => ?_
        obtain ⟨behind, rfl⟩ := List.head?_eq_some_iff.mp hhead
        exact hpair behind rfl rfl
    exact .line hnone hterminator ih
  | case4 c rest hpair hc ih =>
    cases hrest : splitLines rest with
    | nil => exact absurd hrest (splitLines_ne_nil rest)
    | cons first others =>
      rw [hrest] at ih
      exact ih.push (Bool.eq_false_iff.mpr hc)

/-! ## Counting terminators -/

/-- How often a carriage return stands in front of a line feed. -/
def pairCount (text : List Char) : Nat :=
  (text.zip text.tail).count ('\r', '\n')

theorem pairCount_cons (c : Char) (rest : List Char) :
    pairCount (c :: rest) =
      pairCount rest + if c = '\r' ∧ rest.head? = some '\n' then 1 else 0 := by
  cases rest with
  | nil => simp [pairCount]
  | cons d rest =>
    simp only [pairCount, List.tail_cons, List.zip_cons_cons, List.count_cons, List.head?_cons,
      Option.some.injEq, beq_iff_eq, Prod.mk.injEq]

/-- The lines of a text are one more than its terminators: than its line feeds and carriage returns,
of which the two halves of a pair count as one. -/
theorem length_splitLines (text : List Char) :
    (splitLines text).length + pairCount text = text.count '\n' + text.count '\r' + 1 := by
  fun_induction splitLines text with
  | case1 => rfl
  | case2 rest ih =>
    have hpair : pairCount ('\r' :: '\n' :: rest) = pairCount rest + 1 := by
      simp [pairCount_cons]
    have hfeed : ('\r' :: '\n' :: rest).count '\n' = rest.count '\n' + 1 := by simp
    have hreturn : ('\r' :: '\n' :: rest).count '\r' = rest.count '\r' + 1 := by simp
    simp only [List.length_cons]
    omega
  | case3 c rest hpair hc ih =>
    have hsame : pairCount (c :: rest) = pairCount rest := by
      rw [pairCount_cons, if_neg, Nat.add_zero]
      rintro ⟨rfl, hhead⟩
      obtain ⟨behind, rfl⟩ := List.head?_eq_some_iff.mp hhead
      exact hpair behind rfl rfl
    have hone : (c :: rest).count '\n' + (c :: rest).count '\r' =
        rest.count '\n' + rest.count '\r' + 1 := by
      simp only [endsLine, Bool.or_eq_true, beq_iff_eq] at hc
      rcases hc with rfl | rfl <;> simp <;> omega
    simp only [List.length_cons]
    omega
  | case4 c rest hpair hc ih =>
    obtain ⟨hfeed, hreturn⟩ := endsLine_eq_false_iff.mp (Bool.eq_false_iff.mpr hc)
    have hlength : (Line.push c (splitLines rest)).length = (splitLines rest).length := by
      cases h : splitLines rest with
      | nil => exact absurd h (splitLines_ne_nil rest)
      | cons first others => rfl
    rw [hlength, pairCount_cons, if_neg (fun h => hreturn h.1), List.count_cons_of_ne hfeed,
      List.count_cons_of_ne hreturn]
    exact ih

namespace LineIndex

/-- **The line index reads the tiling.**  A text is tiled by its lines in one way only.  There are as
many as the index counts, one more than terminators; put together they are the text; and of each line
the index gives the content, in which no line ends, and the byte size of all that stands before. -/
theorem index_reads_tiling (text : String) :
    ∃ lines, Tiling text.toList lines ∧ (∀ other, Tiling text.toList other → other = lines) ∧
      lines.length = (ofText text).lineCount ∧
      (ofText text).lineCount + pairCount text.toList =
        text.toList.count '\n' + text.toList.count '\r' + 1 ∧
      lines.flatMap (fun line => line.content ++ line.terminator) = text.toList ∧
      (∀ before line after, lines = before ++ line :: after →
        (ofText text).lineText before.length = some line.content ∧ Unbroken line.content ∧
        (line.terminator = [] ↔ after = []) ∧
        (ofText text).lineStart before.length =
          some (byteSize (before.flatMap fun line => line.content ++ line.terminator))) ∧
      ∀ i, (ofText text).lineCount ≤ i →
        (ofText text).lineStart i = none ∧ (ofText text).lineText i = none := by
  have hcount : (ofText text).lineCount = (splitLines text.toList).length := lineCount_eq text.toList
  refine ⟨splitLines text.toList, tiling_splitLines text.toList, fun other h => h.eq_splitLines,
    hcount.symm, ?_, splitLines_chars text.toList, ?_, ?_⟩
  · rw [hcount]
    exact length_splitLines text.toList
  · intro before line after h
    have hproper : line.Proper := splitLines_proper text.toList line (by simp [h])
    exact ⟨lineText_eq h, unbroken_iff.mpr hproper.content, splitLines_terminator_eq_nil h,
      lineStart_eq h⟩
  · intro i hi
    have hstart : (ofText text).lineStart i = none := List.getElem?_eq_none hi
    exact ⟨hstart, by rw [lineText, hstart]⟩

/-- Two carriage returns end two lines, the two halves of a pair end one, and a text that ends in a
terminator has an empty last line. -/
theorem index_reads_tiling_of_mixed_terminators :
    Tiling "a\r\ré\r\nb\n".toList
        [⟨['a'], ['\r']⟩, ⟨[], ['\r']⟩, ⟨['é'], ['\r', '\n']⟩, ⟨['b'], ['\n']⟩, ⟨[], []⟩] ∧
      (ofText "a\r\ré\r\nb\n").lineCount = 5 ∧
      (ofText "a\r\ré\r\nb\n").lineText 2 = some ['é'] ∧
      (ofText "a\r\ré\r\nb\n").lineStart 2 = some 3 ∧
      (ofText "a\r\ré\r\nb\n").lineText 5 = none := by
  obtain ⟨lines, htiling, hunique, hlength, -, -, hread, hbehind⟩ :=
    index_reads_tiling "a\r\ré\r\nb\n"
  have hsplit : splitLines "a\r\ré\r\nb\n".toList =
      [⟨['a'], ['\r']⟩, ⟨[], ['\r']⟩, ⟨['é'], ['\r', '\n']⟩, ⟨['b'], ['\n']⟩, ⟨[], []⟩] := by decide
  have hlines := hunique _ (tiling_splitLines _)
  rw [hsplit] at hlines
  subst hlines
  obtain ⟨htext, -, -, hstart⟩ := hread [⟨['a'], ['\r']⟩, ⟨[], ['\r']⟩] ⟨['é'], ['\r', '\n']⟩
    [⟨['b'], ['\n']⟩, ⟨[], []⟩] rfl
  exact ⟨htiling, hlength.symm, htext, hstart, (hbehind 5 (Nat.le_of_eq hlength.symm)).2⟩

end LineIndex
end QueryLocator
