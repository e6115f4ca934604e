import QueryLocator.Proofs.Lines

/-! # The line index reads the lines

The line index keeps byte offsets only.  Here it is shown to say what `splitLines` says: its line
starts are the byte sizes of what stands before each line (`starts_eq_lineOffsets`), its line texts
are the contents (`lineText_eq`), and the offset of a position is the size of what stands before it
(`offset?_eq`).  In the other direction, an offset at which the text can be cut belongs to the line
that starts last before it (`lineAt_eq`), and going to its position and back moves it at most to the
end of the content of that line (`offset?_position`).
-/
namespace QueryLocator

open Text

/-- The offsets at which consecutive lines start, the first of them at a given offset. -/
def lineOffsets (offset : Nat) : List Line → List Nat
  | [] => []
  | line :: rest => offset :: lineOffsets (offset + byteSize line.chars) rest

theorem lineOffsets_append (offset : Nat) (before after : List Line) :
    lineOffsets offset (before ++ after) =
      lineOffsets offset before ++
        lineOffsets (offset + byteSize (before.flatMap Line.chars)) after := by
  induction before generalizing offset with
  | nil => simp [lineOffsets]
  | cons line before ih => simp [lineOffsets, ih, Nat.add_assoc]

@[simp] theorem lineOffsets_length (offset : Nat) (lines : List Line) :
    (lineOffsets offset lines).length = lines.length := by
  induction lines generalizing offset with
  | nil => rfl
  | cons line lines ih => simp [lineOffsets, ih]

/-- No line starts behind the end of the lines before it. -/
theorem le_of_mem_lineOffsets {offset start : Nat} {lines : List Line}
    (h : start ∈ lineOffsets offset lines) :
    start ≤ offset + byteSize (lines.flatMap Line.chars) := by
  induction lines generalizing offset with
  | nil => simp [lineOffsets] at h
  | cons line lines ih =>
    simp only [List.flatMap_cons, byteSize_append]
    rcases List.mem_cons.mp h with rfl | h
    · omega
    · have := ih h
      omega

namespace LineIndex

/-- What the scan for terminators finds are the starts of all lines but the first. -/
theorem cons_startsFrom (offset : Nat) (text : List Char) :
    offset :: startsFrom offset text = lineOffsets offset (splitLines text) := by
  fun_induction splitLines text generalizing offset with
  | case1 => rfl
  | case2 rest ih =>
    simp [startsFrom, lineOffsets, ← ih, Nat.add_assoc]
  | case3 c rest hpair hc ih =>
    have hbreak : c = '\n' ∨ (c = '\r' ∧ rest.head? ≠ some '\n') := by
      simp only [endsLine, Bool.or_eq_true, beq_iff_eq] at hc
      rcases hc with hc | hc
      · exact Or.inl hc
      · refine Or.inr ⟨hc, fun hhead => ?_⟩
        obtain ⟨r, rfl⟩ := List.head?_eq_some_iff.mp hhead
        exact hpair r hc rfl
    rw [startsFrom, if_pos hbreak, lineOffsets, ← ih]
    simp
  | case4 c rest hpair hc ih =>
    have hstay : ¬ (c = '\n' ∨ (c = '\r' ∧ rest.head? ≠ some '\n')) := by
      rintro (rfl | ⟨rfl, -⟩) <;> simp [endsLine] at hc
    have hrest := ih (offset + c.utf8Size)
    rw [startsFrom, if_neg hstay]
    cases h : splitLines rest with
    | nil => exact absurd h (splitLines_ne_nil rest)
    | cons first others =>
      rw [h] at hrest
      simp only [lineOffsets, List.cons.injEq, true_and] at hrest
      simp [Line.push, lineOffsets, hrest, Line.chars, Nat.add_assoc]

/-- **The starts of the index are the sizes of what stands before the lines.** -/
theorem starts_eq_lineOffsets (text : List Char) :
    (ofChars text).starts = lineOffsets 0 (splitLines text) :=
  cons_startsFrom 0 text

theorem lineCount_eq (text : List Char) : (ofChars text).lineCount = (splitLines text).length := by
  rw [lineCount, starts_eq_lineOffsets, lineOffsets_length]

/-- A line that the index counts is a line of the text. -/
theorem exists_line {text : List Char} {i : Nat} (h : i < (ofChars text).lineCount) :
    ∃ before line after, splitLines text = before ++ line :: after ∧ before.length = i := by
  rw [lineCount_eq] at h
  exact ⟨(splitLines text).take i, (splitLines text)[i], (splitLines text).drop (i + 1),
    by rw [← List.drop_eq_getElem_cons h, List.take_append_drop],
    List.length_take_of_le (Nat.le_of_lt h)⟩

/-- A position on a line that the index counts stands in a column of a line of the text. -/
theorem exists_line_of_position {text : List Char} {position : Position}
    (h : position.line < (ofChars text).lineCount) :
    ∃ before line after column, splitLines text = before ++ line :: after ∧
      position = ⟨before.length, column⟩ := by
  obtain ⟨before, line, after, hline, hbefore⟩ := exists_line h
  exact ⟨before, line, after, position.character, hline, by rw [hbefore]⟩

/-- A position on a line that the index does not count has no offset. -/
theorem offset?_eq_none {index : LineIndex} {position : Position}
    (h : index.lineCount ≤ position.line) : index.offset? position = none := by
  have hstart : index.lineStart position.line = none := List.getElem?_eq_none h
  rw [offset?, hstart]

/-- A position that has an offset is on a line that the index counts. -/
theorem lt_lineCount_of_offset? {index : LineIndex} {position : Position} {offset : Nat}
    (h : index.offset? position = some offset) : position.line < index.lineCount := by
  apply Classical.byContradiction
  intro hge
  rw [offset?_eq_none (Nat.le_of_not_lt hge)] at h
  simp at h

/-! ## A line of the text, seen through the index -/

section AtLine
variable {text : List Char} {before after : List Line} {line : Line}

theorem lineStart_eq (h : splitLines text = before ++ line :: after) :
    (ofChars text).lineStart before.length = some (byteSize (before.flatMap Line.chars)) := by
  rw [lineStart, starts_eq_lineOffsets, h, lineOffsets_append]
  simp [lineOffsets]

theorem lineStart_succ_eq (h : splitLines text = before ++ line :: after) (hne : after ≠ []) :
    (ofChars text).lineStart (before.length + 1) =
      some (byteSize (before.flatMap Line.chars) + byteSize line.chars) := by
  obtain ⟨next, after, rfl⟩ := List.exists_cons_of_ne_nil hne
  have h' : splitLines text = (before ++ [line]) ++ next :: after := by rw [h]; simp
  simpa using lineStart_eq h'

theorem text_eq (h : splitLines text = before ++ line :: after) :
    text = before.flatMap Line.chars ++ (line.chars ++ after.flatMap Line.chars) := by
  rw [← splitLines_chars text, h]
  simp

/-- The line's content is what the index gives as its text. -/
theorem lineText_eq (h : splitLines text = before ++ line :: after) :
    (ofChars text).lineText before.length = some line.content := by
  have hproper : line.Proper := splitLines_proper text line (by simp [h])
  -- the last line reaches to the end of the text, any other one to the next
  have hstop : ((ofChars text).lineStart (before.length + 1)).getD (byteSize text) =
      byteSize (before.flatMap Line.chars) + byteSize line.chars := by
    by_cases hne : after = []
    · have hlast : (ofChars text).lineStart (before.length + 1) = none := by
        rw [lineStart, starts_eq_lineOffsets, h, hne]
        simp
      rw [hlast, text_eq h, hne]
      simp
    · rw [lineStart_succ_eq h hne]
      rfl
  rw [lineText, lineStart_eq h]
  simp only [Option.some.injEq]
  rw [show (ofChars text).text = text from rfl, hstop]
  conv => lhs; rw [text_eq h]
  rw [slice_append, hproper.dropTerminator]

theorem lineLength_eq (h : splitLines text = before ++ line :: after) :
    (ofChars text).lineLength before.length = some line.content.length := by
  rw [lineLength, lineText_eq h]
  rfl

/-- **The offset of a position is the size of what stands before it.** -/
theorem offset?_eq (h : splitLines text = before ++ line :: after) (column : Nat) :
    (ofChars text).offset? ⟨before.length, column⟩ =
      some (byteSize (before.flatMap Line.chars ++ line.content.take column)) := by
  rw [offset?, lineStart_eq h, lineText_eq h, byteSize_append]

/-- What stands before a column of a line ends between the start of the line and the end of its
content. -/
theorem byteSize_upTo_bounds (before : List Line) (line : Line) (column : Nat) :
    byteSize (before.flatMap Line.chars) ≤
        byteSize (before.flatMap Line.chars ++ line.content.take column) ∧
      byteSize (before.flatMap Line.chars ++ line.content.take column) ≤
        byteSize (before.flatMap Line.chars ++ line.content) := by
  have := byteSize_le_of_prefix (List.take_prefix column line.content)
  simp only [byteSize_append]
  omega

/-! ## The line of an offset -/

/-- An offset belongs to the line that starts last at or before it. -/
theorem lineAt_eq (h : splitLines text = before ++ line :: after) {offset : Nat}
    (hlow : byteSize (before.flatMap Line.chars) ≤ offset)
    (hhigh : after ≠ [] → offset < byteSize (before.flatMap Line.chars) + byteSize line.chars) :
    (ofChars text).lineAt offset = before.length := by
  have hbefore : ∀ start ∈ lineOffsets 0 before, decide (start ≤ offset) = true := by
    intro start hstart
    have := le_of_mem_lineOffsets hstart
    simp only [decide_eq_true_eq]
    omega
  have hafter : (lineOffsets (byteSize (before.flatMap Line.chars) + byteSize line.chars)
      after).takeWhile (fun start => decide (start ≤ offset)) = [] := by
    cases after with
    | nil => rfl
    | cons next after =>
      have := hhigh (by simp)
      rw [lineOffsets, List.takeWhile_cons_of_neg]
      simp only [decide_eq_true_eq]
      omega
  rw [lineAt, starts_eq_lineOffsets, h, lineOffsets_append, List.takeWhile_append_of_pos hbefore]
  rw [Nat.zero_add, lineOffsets, List.takeWhile_cons_of_pos (by simpa using hlow), hafter]
  simp

/-- An offset at or behind the end of a line that is not the last belongs to a later one. -/
theorem lt_lineAt (h : splitLines text = before ++ line :: after) (hne : after ≠ []) {offset : Nat}
    (hoffset : byteSize (before.flatMap Line.chars) + byteSize line.chars ≤ offset) :
    before.length < (ofChars text).lineAt offset := by
  obtain ⟨next, after, rfl⟩ := List.exists_cons_of_ne_nil hne
  have hbefore : ∀ start ∈ lineOffsets 0 (before ++ [line]), decide (start ≤ offset) = true := by
    intro start hstart
    have := le_of_mem_lineOffsets hstart
    simp only [List.flatMap_append, List.flatMap_singleton, byteSize_append] at this
    simp only [decide_eq_true_eq]
    omega
  have hsplit : splitLines text = (before ++ [line]) ++ next :: after := by rw [h]; simp
  rw [lineAt, starts_eq_lineOffsets, hsplit, lineOffsets_append,
    List.takeWhile_append_of_pos hbefore, lineOffsets, List.takeWhile_cons_of_pos]
  · simp only [List.length_append, lineOffsets_length, List.length_cons, List.length_nil]
    omega
  · simpa using hoffset

/-- The position of an offset at which the text can be cut. -/
theorem position_eq (h : splitLines text = before ++ line :: after) {pre : List Char}
    (hpre : pre <+: text) (hlow : byteSize (before.flatMap Line.chars) ≤ byteSize pre)
    (hhigh : after ≠ [] →
      byteSize pre < byteSize (before.flatMap Line.chars) + byteSize line.chars) :
    (ofChars text).position (byteSize pre) =
      ⟨before.length, (takeBytes (byteSize pre - byteSize (before.flatMap Line.chars))
        line.content).length⟩ := by
  have hsnap : snap (byteSize pre) (ofChars text).text = byteSize pre := snap_of_prefix hpre
  simp only [position, hsnap, lineAt_eq h hlow hhigh, lineStart_eq h, lineText_eq h,
    Option.getD_some]

/-- **To the position of an offset and back.**  The way back ends at the offset itself, or at the end
of the content of its line if the offset lies inside the terminator behind it. -/
theorem offset?_position (h : splitLines text = before ++ line :: after) {pre : List Char}
    (hpre : pre <+: text) (hlow : byteSize (before.flatMap Line.chars) ≤ byteSize pre)
    (hhigh : after ≠ [] →
      byteSize pre < byteSize (before.flatMap Line.chars) + byteSize line.chars) :
    (ofChars text).offset? ((ofChars text).position (byteSize pre)) =
      some (min (byteSize pre) (byteSize (before.flatMap Line.chars ++ line.content))) := by
  have htext := text_eq h
  have hbefore : before.flatMap Line.chars <+: text := ⟨_, htext.symm⟩
  obtain ⟨mid, rfl⟩ := prefix_of_byteSize_le hbefore hpre hlow
  have hmid : mid <+: line.chars ++ after.flatMap Line.chars := by
    rw [htext] at hpre
    exact (List.prefix_append_right_inj _).mp hpre
  have hcontent : line.content <+: line.chars ++ after.flatMap Line.chars := by
    rw [Line.chars, List.append_assoc]
    exact List.prefix_append ..
  rw [position_eq h hpre hlow hhigh, offset?_eq h, byteSize_append, byteSize_append, byteSize_append,
    Nat.add_sub_cancel_left]
  have htake : line.content.take (takeBytes (byteSize mid) line.content).length =
      takeBytes (byteSize mid) line.content := by
    conv => lhs; arg 2; rw [← takeBytes_append_dropBytes (byteSize mid) line.content]
    exact List.take_left
  rw [htake, byteSize_takeBytes_of_prefix hmid hcontent]
  congr 1
  omega

/-- Every line but the last one takes at least one byte. -/
theorem length_le_byteSize_lines (h : splitLines text = before ++ line :: after) :
    before.length ≤ byteSize (before.flatMap Line.chars) := by
  have hchars : ∀ earlier ∈ before, earlier.chars ≠ [] := by
    intro earlier hmem
    obtain ⟨front, back, rfl⟩ := List.append_of_mem hmem
    rw [List.append_assoc, List.cons_append] at h
    have hterminator := mt (splitLines_terminator_eq_nil h).mp (by simp)
    simp [Line.chars, hterminator]
  clear h
  induction before with
  | nil => exact Nat.zero_le _
  | cons first before ih =>
    rw [List.forall_mem_cons] at hchars
    have hfirst := byteSize_pos hchars.1
    have hrest := ih hchars.2
    rw [List.length_cons, List.flatMap_cons, byteSize_append]
    omega

/-- The content of a line that is not the last ends before the next line starts. -/
theorem byteSize_content_lt (h : splitLines text = before ++ line :: after) (hne : after ≠ []) :
    byteSize (before.flatMap Line.chars ++ line.content) <
      byteSize (before.flatMap Line.chars) + byteSize line.chars := by
  have hterm : line.terminator ≠ [] := by
    rw [Ne, splitLines_terminator_eq_nil h]
    exact hne
  have := byteSize_pos hterm
  simp only [Line.chars, byteSize_append]
  omega

end AtLine

/-! ## Where a cursor stands behind a text -/

/-- The position of a cursor that has passed a text: on its last line, behind all its content. -/
def caret (pre : List Char) : Position :=
  ⟨(splitLines pre).length - 1, ((splitLines pre).getLast (splitLines_ne_nil pre)).content.length⟩

theorem caret_eq {pre : List Char} {before : List Line} {content : List Char}
    (h : splitLines pre = before ++ [⟨content, []⟩]) : caret pre = ⟨before.length, content.length⟩ := by
  simp [caret, h]

/-- **The position of an offset depends on what stands before it only.** -/
theorem position_of_cleanCut {pre suf : List Char} (h : CleanCut pre suf) :
    (ofChars (pre ++ suf)).position (byteSize pre) = caret pre := by
  obtain ⟨before, content, first, others, hpre, hsuf, htext⟩ := splitLines_append h
  have hsplit : pre = before.flatMap Line.chars ++ content := by
    conv => lhs; rw [← splitLines_chars pre, hpre]
    simp
  have hhigh : others ≠ [] → byteSize pre < byteSize (before.flatMap Line.chars) +
      byteSize (Line.mk (content ++ first.content) first.terminator).chars := by
    intro hne
    have hterm : first.terminator ≠ [] := by
      rw [Ne, @splitLines_terminator_eq_nil _ [] _ first hsuf]
      exact hne
    have := byteSize_pos hterm
    rw [hsplit]
    simp only [Line.chars_mk, byteSize_append]
    omega
  rw [position_eq htext (List.prefix_append ..) (by rw [hsplit]; simp) hhigh, caret_eq hpre]
  conv => lhs; rw [hsplit]
  rw [byteSize_append, Nat.add_sub_cancel_left, takeBytes_byteSize_append]

/-- **A clean cut is where a cursor stands.**  The position of its offset leads back to it. -/
theorem exists_position_of_cleanCut {pre suf : List Char} (h : CleanCut pre suf) :
    ∃ before line after column, splitLines (pre ++ suf) = before ++ line :: after ∧
      (ofChars (pre ++ suf)).position (byteSize pre) = ⟨before.length, column⟩ ∧
      before.flatMap Line.chars ++ line.content.take column = pre := by
  obtain ⟨before, content, first, others, hpre, -, htext⟩ := splitLines_append h
  refine ⟨before, _, others, content.length, htext, ?_, ?_⟩
  · rw [position_of_cleanCut h, caret_eq hpre]
  · simp only [List.take_left]
    conv => rhs; rw [← splitLines_chars pre, hpre]
    simp

end LineIndex
end QueryLocator
