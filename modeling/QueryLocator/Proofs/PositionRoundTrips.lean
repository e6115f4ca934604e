import QueryLocator.Proofs.LineOffsets

/-! # Positions and offsets, there and back

A cursor position becomes an offset and comes back on the same line, with its column clamped to the
line.  An offset becomes a position of the text and comes back as the place to which it is moved when
it lies behind the end or inside a character; only between the two halves of a terminator, where no
cursor can stand, it comes back at the end of the line in front (`positions_match_offsets`).
-/
namespace QueryLocator.LineIndex

open Text

/-- A line whose length is known is a line of the text. -/
theorem lt_lineCount_of_lineLength {index : LineIndex} {line length : Nat}
    (h : index.lineLength line = some length) : line < index.lineCount := by
  apply Classical.byContradiction
  intro hge
  have hstart : index.lineStart line = none := List.getElem?_eq_none (Nat.le_of_not_lt hge)
  simp [lineLength, lineText, hstart] at h

/-- An offset inside a character belongs to the place where the character begins. -/
theorem position_snap (text : List Char) (offset : Nat) :
    (ofChars text).position (snap offset text) = (ofChars text).position offset := by
  have hsnap : snap (snap offset text) text = snap offset text :=
    snap_of_prefix (prefix_takeBytes offset text)
  have htext : (ofChars text).text = text := rfl
  simp only [position, htext, hsnap]

/-- **A cursor is where its offset says**: on the same line, in its column or at the end. -/
theorem position_upTo {text : List Char} {before after : List Line} {line : Line}
    (h : splitLines text = before ++ line :: after) (column : Nat) :
    (ofChars text).position (byteSize (before.flatMap Line.chars ++ line.content.take column)) =
      ⟨before.length, min column line.content.length⟩ := by
  obtain ⟨suf, htext, hcut, hlines⟩ := splitLines_upTo h column
  conv => lhs; rw [htext]
  rw [position_of_cleanCut hcut, caret_eq hlines, List.length_take]

/-! ## Places in a text -/

section Places
variable {pre suf : List Char}

/-- A clean cut has the position of a cursor, and is the offset of that position. -/
theorem offset?_of_cleanCut (h : CleanCut pre suf) :
    ∃ line column length, (ofChars (pre ++ suf)).position (byteSize pre) = ⟨line, column⟩ ∧
      (ofChars (pre ++ suf)).lineLength line = some length ∧ column ≤ length ∧
      (ofChars (pre ++ suf)).offset? ⟨line, column⟩ = some (byteSize pre) := by
  obtain ⟨before, line, after, column, hline, hposition, hpre⟩ := exists_position_of_cleanCut h
  have hcolumn := position_upTo hline column
  rw [hpre, hposition, Position.mk.injEq] at hcolumn
  refine ⟨_, column, _, hposition, lineLength_eq hline, by omega, ?_⟩
  rw [offset?_eq hline, hpre]

/-- The line that ends in a terminator of two characters. -/
theorem exists_line_of_pair (pre suf : List Char) :
    ∃ before content, splitLines (pre ++ '\r' :: '\n' :: suf) =
        before ++ ⟨content, ['\r', '\n']⟩ :: splitLines suf ∧
      before.flatMap Line.chars ++ content = pre := by
  have hcut : CleanCut pre ('\r' :: '\n' :: suf) := by simp [CleanCut]
  obtain ⟨before, content, first, others, hpre, hsuf, hlines⟩ := splitLines_append hcut
  rw [splitLines] at hsuf
  obtain ⟨rfl, rfl⟩ := List.cons.inj hsuf
  refine ⟨before, content, by rw [hlines, List.append_nil], ?_⟩
  conv => rhs; rw [← splitLines_chars pre, hpre]
  simp

/-- **Between the two halves of a terminator** an offset has the position of the end of the line, which
is the offset in front of both halves. -/
theorem offset?_of_not_cleanCut (h : ¬CleanCut pre suf) :
    ∃ line length, (ofChars (pre ++ suf)).position (byteSize pre) = ⟨line, length⟩ ∧
      (ofChars (pre ++ suf)).lineLength line = some length ∧
      (ofChars (pre ++ suf)).offset? ⟨line, length⟩ = some (byteSize pre - 1) := by
  obtain ⟨front, back, rfl, rfl⟩ := exists_of_not_cleanCut h
  obtain ⟨before, content, hlines, hfront⟩ := exists_line_of_pair front back
  have hcut : front ++ ['\r'] <+: front ++ '\r' :: '\n' :: back := ⟨'\n' :: back, by simp⟩
  have hsize : byteSize (front ++ ['\r']) = byteSize front + 1 := by
    rw [byteSize_append]
    rfl
  have hbefore : byteSize (before.flatMap Line.chars) + byteSize content = byteSize front := by
    rw [← hfront, byteSize_append]
  have hline : byteSize (Line.mk content ['\r', '\n']).chars = byteSize content + 2 := by
    rw [Line.chars_mk, byteSize_append]
    rfl
  have hposition := position_eq hlines hcut (by omega) (by omega)
  rw [takeBytes_of_byteSize_le (show byteSize content ≤ _ by omega)] at hposition
  rw [List.append_assoc, List.singleton_append]
  refine ⟨_, _, hposition, lineLength_eq hlines, ?_⟩
  rw [offset?_eq hlines, List.take_length, hfront, hsize, Nat.add_sub_cancel]

end Places

/-- **Positions and offsets, there and back.**  A position on a line of the text comes back from its
offset with its column clamped to the line.  Any offset is first moved to the last place in front of it
where the text can be cut.  Its position is one of the text; it comes back as that place, or, from
between the two halves of a terminator, as the end of the line, one byte in front. -/
theorem positions_match_offsets (text : String) :
    (∀ position : Position, position.line < (ofText text).lineCount → ∃ offset length,
        (ofText text).offset? position = some offset ∧
        (ofText text).lineLength position.line = some length ∧
        (ofText text).position offset = ⟨position.line, min position.character length⟩) ∧
      ∀ offset : Nat, ∃ pre suf line column length, text.toList = pre ++ suf ∧
        byteSize pre ≤ min offset (byteSize text.toList) ∧
        (∀ cut, IsBoundary cut text.toList → cut ≤ min offset (byteSize text.toList) →
          cut ≤ byteSize pre) ∧
        (ofText text).position offset = ⟨line, column⟩ ∧ line < (ofText text).lineCount ∧
        (ofText text).lineLength line = some length ∧ column ≤ length ∧
        (CleanCut pre suf → (ofText text).offset? ⟨line, column⟩ = some (byteSize pre)) ∧
        (¬CleanCut pre suf → column = length ∧
          (ofText text).offset? ⟨line, column⟩ = some (byteSize pre - 1)) := by
  constructor
  · intro position hposition
    obtain ⟨before, line, after, column, hline, rfl⟩ := exists_line_of_position hposition
    exact ⟨_, _, offset?_eq hline column, lineLength_eq hline, position_upTo hline column⟩
  · intro offset
    have hplace := position_snap text.toList offset
    have hlow := byteSize_takeBytes_le offset text.toList
    have hinside := byteSize_le_of_prefix (prefix_takeBytes offset text.toList)
    have hgreatest : ∀ cut, IsBoundary cut text.toList → cut ≤ min offset (byteSize text.toList) →
        cut ≤ snap offset text.toList := fun cut hcut hle => le_snap hcut (by omega)
    have hsplit := takeBytes_append_dropBytes offset text.toList
    rw [snap] at hplace hgreatest
    generalize takeBytes offset text.toList = pre at *
    generalize dropBytes offset text.toList = suf at *
    have hbounds : byteSize pre ≤ min offset (byteSize text.toList) := by omega
    rw [ofText, ← hplace, ← hsplit]
    rw [← hsplit] at hbounds hgreatest
    by_cases hcut : CleanCut pre suf
    · obtain ⟨line, column, length, hposition, hlength, hcolumn, hback⟩ := offset?_of_cleanCut hcut
      exact ⟨pre, suf, line, column, length, rfl, hbounds, hgreatest, hposition,
        lt_lineCount_of_lineLength hlength, hlength, hcolumn, fun _ => hback, absurd hcut⟩
    · obtain ⟨line, length, hposition, hlength, hback⟩ := offset?_of_not_cleanCut hcut
      exact ⟨pre, suf, line, length, length, rfl, hbounds, hgreatest, hposition,
        lt_lineCount_of_lineLength hlength, hlength, Nat.le_refl _, fun h => absurd h hcut,
        fun _ => ⟨rfl, hback⟩⟩

/-- A column behind the end of its line, and the offset between the halves of its terminator. -/
theorem positions_match_offsets_around_terminator :
    (0 < (ofText "é\r\nb").lineCount ∧ ∃ offset length,
        (ofText "é\r\nb").offset? ⟨0, 9⟩ = some offset ∧
        (ofText "é\r\nb").lineLength 0 = some length ∧
        (ofText "é\r\nb").position offset = ⟨0, min 9 length⟩) ∧
      (ofText "é\r\nb").position 3 = ⟨0, 1⟩ ∧ (ofText "é\r\nb").offset? ⟨0, 1⟩ = some 2 ∧
      ∃ pre suf line column, "é\r\nb".toList = pre ++ suf ∧
        (ofText "é\r\nb").position 3 = ⟨line, column⟩ ∧
        (CleanCut pre suf → (ofText "é\r\nb").offset? ⟨line, column⟩ = some (byteSize pre)) ∧
        (¬CleanCut pre suf → (ofText "é\r\nb").offset? ⟨line, column⟩ = some (byteSize pre - 1)) := by
  obtain ⟨hforth, hback⟩ := positions_match_offsets "é\r\nb"
  obtain ⟨pre, suf, line, column, length, hsplit, -, -, hposition, -, -, -, hclean, hpair⟩ := hback 3
  exact ⟨⟨by decide, hforth ⟨0, 9⟩ (by decide)⟩, by decide, by decide, pre, suf, line, column, hsplit,
    hposition, hclean, fun hcut => (hpair hcut).2⟩

end QueryLocator.LineIndex
