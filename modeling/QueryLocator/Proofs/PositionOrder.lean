import QueryLocator.Failure
import QueryLocator.Proofs.PositionRoundTrips

/-! # Positions and offsets are in the same order

Positions are ordered by line, then by character.  On the positions that the text has, the offset of
one is smaller exactly when it stands before the other; a column behind the end of its line moves its
offset to the end of the line, but never past another position (`offset?_mono`).

In the other direction an offset may be moved twice: to the start of a character, and from between the
two halves of a terminator to the end of the line.  Both moves go back, the second one by a single byte,
so they cannot change the order (`position_mono`).
-/
namespace QueryLocator

open Text

namespace Position

/-- The order of positions: by line, then by character. -/
def Before (p q : Position) : Prop :=
  p.line < q.line ∨ (p.line = q.line ∧ p.character < q.character)

/-- The same order, for positions that may be equal. -/
def NotBehind (p q : Position) : Prop :=
  p.line < q.line ∨ (p.line = q.line ∧ p.character ≤ q.character)

theorem not_before_self (p : Position) : ¬p.Before p := by
  rintro (h | ⟨-, h⟩) <;> exact Nat.lt_irrefl _ h

theorem not_notBehind_iff {p q : Position} : ¬p.NotBehind q ↔ q.Before p := by
  simp only [NotBehind, Before]
  omega

theorem Before.notBehind {p q : Position} (h : p.Before q) : p.NotBehind q := by
  rcases h with h | ⟨hline, h⟩
  · exact Or.inl h
  · exact Or.inr ⟨hline, Nat.le_of_lt h⟩

end Position

namespace LineIndex

/-- A position that the text has: on one of its lines, and not behind the end of that line. -/
def Holds (index : LineIndex) (position : Position) : Prop :=
  position.line < index.lineCount ∧
    ∃ length, index.lineLength position.line = some length ∧ position.character ≤ length

/-! ## From positions to offsets -/

section Offsets
variable {text : List Char} {before after : List Line} {line : Line} {p q : Position} {a b : Nat}

/-- The line at a place, with what stands before and behind it. -/
theorem exists_line_among {i : Nat} (hi : i < before.length) :
    ∃ front earlier between, before = front ++ earlier :: between ∧ front.length = i :=
  ⟨before.take i, before[i], before.drop (i + 1),
    by rw [← List.drop_eq_getElem_cons hi, List.take_append_drop],
    List.length_take_of_le (Nat.le_of_lt hi)⟩

/-- Every column of a line ends in front of the lines behind it. -/
theorem offset?_lt_of_line_lt (hline : p.line < q.line)
    (ha : (ofChars text).offset? p = some a) (hb : (ofChars text).offset? q = some b) : a < b := by
  obtain ⟨before, line, after, column, hq, rfl⟩ :=
    exists_line_of_position (lt_lineCount_of_offset? hb)
  obtain ⟨front, earlier, between, rfl, hfront⟩ := exists_line_among hline
  obtain ⟨i, early⟩ := p
  obtain rfl : front.length = i := hfront
  have hp : splitLines text = front ++ earlier :: (between ++ line :: after) := by simp [hq]
  have hlast := byteSize_content_lt hp (by simp)
  have hfirst := (byteSize_upTo_bounds front earlier early).2
  have hstart := (byteSize_upTo_bounds (front ++ earlier :: between) line column).1
  rw [offset?_eq hq] at hb
  rw [offset?_eq hp] at ha
  obtain rfl := Option.some.inj ha
  obtain rfl := Option.some.inj hb
  simp only [List.flatMap_append, List.flatMap_cons, byteSize_append] at hlast hfirst hstart ⊢
  omega

/-- On one line offsets grow with the columns. -/
theorem offset?_le_of_character_le (hline : p.line = q.line) (hle : p.character ≤ q.character)
    (ha : (ofChars text).offset? p = some a) (hb : (ofChars text).offset? q = some b) : a ≤ b := by
  obtain ⟨before, line, after, column, hq, rfl⟩ :=
    exists_line_of_position (lt_lineCount_of_offset? hb)
  obtain ⟨i, early⟩ := p
  obtain rfl : i = before.length := hline
  have hprefix : line.content.take early <+: line.content.take column :=
    List.take_prefix_take_left hle
  have hsize := byteSize_le_of_prefix hprefix
  rw [offset?_eq hq] at ha hb
  obtain rfl := Option.some.inj ha
  obtain rfl := Option.some.inj hb
  simp only [byteSize_append]
  omega

/-- Up to the end of the line they grow strictly: what stands before a column tells the column. -/
theorem character_eq_of_offset?_eq (hline : p.line = q.line) (hp : (ofChars text).Holds p)
    (hq : (ofChars text).Holds q) (ha : (ofChars text).offset? p = some a)
    (hb : (ofChars text).offset? q = some a) : p.character = q.character := by
  obtain ⟨hcount, length, hlength, hle⟩ := hq
  obtain ⟨-, length', hlength', hle'⟩ := hp
  obtain ⟨before, line, after, column, hq, rfl⟩ := exists_line_of_position hcount
  obtain ⟨i, early⟩ := p
  obtain rfl : i = before.length := hline
  rw [lineLength_eq hq] at hlength hlength'
  obtain rfl := Option.some.inj hlength
  obtain rfl := Option.some.inj hlength'
  rw [offset?_eq hq] at ha hb
  have hsize : byteSize (line.content.take early) = byteSize (line.content.take column) := by
    have := Option.some.inj (ha.trans hb.symm)
    simp only [byteSize_append] at this
    omega
  have htake := congrArg List.length
    (eq_of_byteSize_eq (List.take_prefix ..) (List.take_prefix ..) hsize)
  rw [List.length_take_of_le hle', List.length_take_of_le hle] at htake
  exact htake

/-- **Offsets keep the order of positions**, whatever their columns. -/
theorem offset?_mono (h : p.NotBehind q) (ha : (ofChars text).offset? p = some a)
    (hb : (ofChars text).offset? q = some b) : a ≤ b := by
  rcases h with hline | ⟨hline, hle⟩
  · exact Nat.le_of_lt (offset?_lt_of_line_lt hline ha hb)
  · exact offset?_le_of_character_le hline hle ha hb

/-- **Different positions of the text have different offsets, in the same order.** -/
theorem offset?_strictMono (hp : (ofChars text).Holds p) (hq : (ofChars text).Holds q)
    (h : p.Before q) (ha : (ofChars text).offset? p = some a)
    (hb : (ofChars text).offset? q = some b) : a < b := by
  apply Nat.lt_of_le_of_ne (offset?_mono h.notBehind ha hb)
  rintro rfl
  rcases h with hline | ⟨hline, hlt⟩
  · exact Nat.lt_irrefl _ (offset?_lt_of_line_lt hline ha hb)
  · exact Nat.ne_of_lt hlt (character_eq_of_offset?_eq hline hp hq ha hb)

theorem exists_offset (h : p.line < (ofChars text).lineCount) :
    ∃ a, (ofChars text).offset? p = some a ∧ (ofChars text).offset p = .ok a := by
  obtain ⟨before, line, after, column, hline, rfl⟩ := exists_line_of_position h
  have ha := offset?_eq hline column
  exact ⟨_, ha, by rw [offset, ha]⟩

/-- Line and column of a position that the text has are together no greater than its offset. -/
theorem line_add_character_le (hp : (ofChars text).Holds p) (ha : (ofChars text).offset? p = some a) :
    p.line + p.character ≤ a := by
  obtain ⟨hcount, length, hlength, hle⟩ := hp
  obtain ⟨before, line, after, column, hline, rfl⟩ := exists_line_of_position hcount
  rw [lineLength_eq hline] at hlength
  obtain rfl := Option.some.inj hlength
  rw [offset?_eq hline] at ha
  obtain rfl := Option.some.inj ha
  have hlines := length_le_byteSize_lines hline
  have hcolumn := length_le_byteSize (line.content.take column)
  rw [List.length_take_of_le hle] at hcolumn
  rw [byteSize_append]
  exact Nat.add_le_add hlines hcolumn

end Offsets

/-! ## From offsets to positions -/

/-- The position of an offset is one that the text has.  Its own offset is the start of the character
that the first one lies in, or one byte less. -/
theorem exists_place (text : List Char) (offset : Nat) :
    ∃ place, (ofChars text).Holds ((ofChars text).position offset) ∧
      (ofChars text).offset? ((ofChars text).position offset) = some place ∧
      place ≤ snap offset text ∧ snap offset text ≤ place + 1 := by
  have hsplit := takeBytes_append_dropBytes offset text
  rw [← position_snap text offset, snap]
  generalize takeBytes offset text = pre at *
  generalize dropBytes offset text = suf at *
  subst hsplit
  by_cases hcut : CleanCut pre suf
  · obtain ⟨line, column, length, hposition, hlength, hcolumn, hback⟩ := offset?_of_cleanCut hcut
    rw [hposition]
    exact ⟨_, ⟨lt_lineCount_of_lineLength hlength, length, hlength, hcolumn⟩, hback, by omega, by omega⟩
  · obtain ⟨line, length, hposition, hlength, hback⟩ := offset?_of_not_cleanCut hcut
    rw [hposition]
    exact ⟨_, ⟨lt_lineCount_of_lineLength hlength, length, hlength, Nat.le_refl _⟩, hback, by omega,
      by omega⟩

/-- **Positions keep the order of offsets.**  Were the position of the larger offset before the other
one, then both offsets would be moved to the same place, which has one position only. -/
theorem position_mono (text : List Char) {a b : Nat} (h : a ≤ b) :
    ((ofChars text).position a).NotBehind ((ofChars text).position b) := by
  apply Classical.byContradiction
  intro hbehind
  have hbefore := Position.not_notBehind_iff.mp hbehind
  obtain ⟨placeA, hholdsA, hplaceA, hlowA, -⟩ := exists_place text a
  obtain ⟨placeB, hholdsB, hplaceB, -, hhighB⟩ := exists_place text b
  have hplaces : placeB < placeA := offset?_strictMono hholdsB hholdsA hbefore hplaceB hplaceA
  have hsnap : snap a text ≤ snap b text :=
    le_snap (isBoundary_snap a text) (Nat.le_trans (snap_le a text) h)
  have hsame : snap a text = snap b text := by omega
  have hposition : (ofChars text).position a = (ofChars text).position b := by
    rw [← position_snap text a, ← position_snap text b, hsame]
  rw [hposition] at hbefore
  exact Position.not_before_self _ hbefore

/-- **Offsets and positions are in the same order.**  Of two positions that the text has, one is before
the other exactly when its offset is the smaller.  Columns behind the ends of their lines and offsets
that stand for no position are moved without changing the order. -/
theorem offsets_in_order_of_positions (text : String) :
    (∀ p q, (ofText text).Holds p → (ofText text).Holds q →
      ∃ a b, (ofText text).offset p = .ok a ∧ (ofText text).offset q = .ok b ∧
        (a < b ↔ p.Before q)) ∧
    (∀ p q : Position, p.line < (ofText text).lineCount → q.line < (ofText text).lineCount →
      ∃ a b, (ofText text).offset p = .ok a ∧ (ofText text).offset q = .ok b ∧
        (p.NotBehind q → a ≤ b)) ∧
    ∀ a b, a ≤ b → ((ofText text).position a).NotBehind ((ofText text).position b) := by
  refine ⟨fun p q hp hq => ?_, fun p q hp hq => ?_, fun a b h => position_mono text.toList h⟩
  · obtain ⟨a, ha, hoffsetA⟩ := exists_offset hp.1
    obtain ⟨b, hb, hoffsetB⟩ := exists_offset hq.1
    refine ⟨a, b, hoffsetA, hoffsetB, fun hlt => ?_, fun h => offset?_strictMono hp hq h ha hb⟩
    apply Classical.byContradiction
    intro hbefore
    -- otherwise the second position is not behind the first, and neither is its offset
    have hle : b ≤ a := offset?_mono (Classical.not_not.mp (mt Position.not_notBehind_iff.mp hbefore))
      hb ha
    omega
  · obtain ⟨a, ha, hoffsetA⟩ := exists_offset hp
    obtain ⟨b, hb, hoffsetB⟩ := exists_offset hq
    exact ⟨a, b, hoffsetA, hoffsetB, fun h => offset?_mono h ha hb⟩

/-- The end of a line and the start of the next; a column behind the end of the first line; and an
offset between the two halves of its terminator, in front of one inside a character. -/
theorem offsets_in_order_of_positions_around_terminator :
    ((ofText "é\r\né").Holds ⟨0, 1⟩ ∧ (ofText "é\r\né").Holds ⟨1, 0⟩ ∧
      ∃ a b, (ofText "é\r\né").offset ⟨0, 1⟩ = .ok a ∧ (ofText "é\r\né").offset ⟨1, 0⟩ = .ok b ∧
        (a < b ↔ Position.Before ⟨0, 1⟩ ⟨1, 0⟩)) ∧
      (∃ a b, (ofText "é\r\né").offset ⟨0, 9⟩ = .ok a ∧ (ofText "é\r\né").offset ⟨1, 0⟩ = .ok b ∧
        a ≤ b) ∧
      ((ofText "é\r\né").position 3).NotBehind ((ofText "é\r\né").position 5) := by
  obtain ⟨hstrict, hmono, hposition⟩ := offsets_in_order_of_positions "é\r\né"
  have hend : (ofText "é\r\né").Holds ⟨0, 1⟩ := ⟨by decide, 1, by decide, by decide⟩
  have hstart : (ofText "é\r\né").Holds ⟨1, 0⟩ := ⟨by decide, 1, by decide, by decide⟩
  obtain ⟨a, b, ha, hb, hle⟩ := hmono ⟨0, 9⟩ ⟨1, 0⟩ (by decide) (by decide)
  exact ⟨⟨hend, hstart, hstrict _ _ hend hstart⟩, ⟨a, b, ha, hb, hle (Or.inl (by decide))⟩,
    hposition 3 5 (by decide)⟩

end LineIndex
end QueryLocator
