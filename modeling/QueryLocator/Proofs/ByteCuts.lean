import QueryLocator.Text.Bytes

/-! # Cutting at a character boundary

The byte offsets at which a text may be cut without splitting a character are the byte sizes of its
prefixes.  At such an offset cutting is exact: what is taken is the prefix and what is dropped is the
rest.  Every later statement about offsets speaks of prefixes and comes back to bytes through the
lemmas here.
-/
namespace QueryLocator.Text

/-- An offset at which a text can be cut without splitting a character. -/
def IsBoundary (offset : Nat) (text : List Char) : Prop :=
  ∃ pre, pre <+: text ∧ byteSize pre = offset

theorem length_le_byteSize (text : List Char) : text.length ≤ byteSize text := by
  induction text with
  | nil => exact Nat.le_refl 0
  | cons c rest ih =>
    have := c.utf8Size_pos
    rw [List.length_cons, byteSize_cons]
    omega

/-- Only the empty text takes no bytes. -/
theorem byteSize_pos {text : List Char} (h : text ≠ []) : 0 < byteSize text :=
  Nat.lt_of_lt_of_le (List.length_pos_iff.mpr h) (length_le_byteSize text)

theorem byteSize_eq_zero_iff {text : List Char} : byteSize text = 0 ↔ text = [] := by
  constructor
  · intro h
    apply Classical.byContradiction
    intro hne
    have := byteSize_pos hne
    omega
  · rintro rfl
    rfl

@[simp] theorem takeBytes_zero (text : List Char) : takeBytes 0 text = [] := by
  cases text with
  | nil => rfl
  | cons c rest =>
    have hc : c.utf8Size ≠ 0 := Nat.ne_of_gt c.utf8Size_pos
    simp [takeBytes, hc]

@[simp] theorem dropBytes_zero (text : List Char) : dropBytes 0 text = text := by
  cases text with
  | nil => rfl
  | cons c rest =>
    have hc : c.utf8Size ≠ 0 := Nat.ne_of_gt c.utf8Size_pos
    simp [dropBytes, hc]

@[simp] theorem takeBytes_byteSize_append (a b : List Char) : takeBytes (byteSize a) (a ++ b) = a := by
  induction a with
  | nil => simp
  | cons c rest ih => simp [takeBytes, ih]

@[simp] theorem dropBytes_byteSize_append (a b : List Char) : dropBytes (byteSize a) (a ++ b) = b := by
  induction a with
  | nil => simp
  | cons c rest ih => simp [dropBytes, ih]

/-- Taking at least as many bytes as there are takes everything. -/
theorem takeBytes_of_byteSize_le {n : Nat} {text : List Char} (h : byteSize text ≤ n) :
    takeBytes n text = text := by
  induction text generalizing n with
  | nil => rfl
  | cons c rest ih =>
    rw [byteSize_cons] at h
    have hc : c.utf8Size ≤ n := by omega
    have hrest : takeBytes (n - c.utf8Size) rest = rest := ih (by omega)
    simp [takeBytes, hc, hrest]

/-- The piece between two boundaries. -/
theorem slice_append (a b c : List Char) :
    slice (byteSize a) (byteSize a + byteSize b) (a ++ (b ++ c)) = b := by
  rw [slice, dropBytes_byteSize_append, Nat.add_sub_cancel_left, takeBytes_byteSize_append]

/-- A boundary is not moved. -/
theorem snap_of_prefix {pre text : List Char} (h : pre <+: text) :
    snap (byteSize pre) text = byteSize pre := by
  obtain ⟨rest, rfl⟩ := h
  rw [snap, takeBytes_byteSize_append]

theorem byteSize_le_of_prefix {a b : List Char} (h : a <+: b) : byteSize a ≤ byteSize b := by
  obtain ⟨rest, rfl⟩ := h
  simp

theorem IsBoundary.le_byteSize {offset : Nat} {text : List Char} (h : IsBoundary offset text) :
    offset ≤ byteSize text := by
  obtain ⟨pre, hpre, rfl⟩ := h
  exact byteSize_le_of_prefix hpre

theorem IsBoundary.max {a b : Nat} {text : List Char} (ha : IsBoundary a text)
    (hb : IsBoundary b text) : IsBoundary (max a b) text := by
  rcases Nat.le_total a b with h | h
  · rwa [Nat.max_eq_right h]
  · rwa [Nat.max_eq_left h]

theorem IsBoundary.min {a b : Nat} {text : List Char} (ha : IsBoundary a text)
    (hb : IsBoundary b text) : IsBoundary (min a b) text := by
  rcases Nat.le_total a b with h | h
  · rwa [Nat.min_eq_left h]
  · rwa [Nat.min_eq_right h]

theorem prefix_takeBytes (n : Nat) (text : List Char) : takeBytes n text <+: text :=
  ⟨dropBytes n text, takeBytes_append_dropBytes n text⟩

theorem isBoundary_snap (offset : Nat) (text : List Char) : IsBoundary (snap offset text) text :=
  ⟨_, prefix_takeBytes offset text, rfl⟩

/-- An offset is moved back, if at all. -/
theorem snap_le (offset : Nat) (text : List Char) : snap offset text ≤ offset :=
  byteSize_takeBytes_le offset text

/-- An offset is moved back no further than it has to be. -/
theorem le_snap {offset cut : Nat} {text : List Char} (hcut : IsBoundary cut text)
    (hle : cut ≤ offset) : cut ≤ snap offset text := by
  obtain ⟨pre, ⟨rest, rfl⟩, rfl⟩ := hcut
  induction pre generalizing offset with
  | nil => simp
  | cons c pre ih =>
    rw [byteSize_cons] at hle
    have hc : c.utf8Size ≤ offset := by omega
    have hmore := @ih (offset - c.utf8Size) (by omega)
    simp only [snap, List.cons_append, takeBytes, hc, if_true, byteSize_cons] at hmore ⊢
    omega

/-- Of two prefixes of one text the one that takes fewer bytes is a prefix of the other. -/
theorem prefix_of_byteSize_le {a b text : List Char} (ha : a <+: text) (hb : b <+: text)
    (h : byteSize a ≤ byteSize b) : a <+: b := by
  rcases List.prefix_or_prefix_of_prefix ha hb with hab | ⟨rest, rfl⟩
  · exact hab
  · rw [byteSize_append] at h
    obtain rfl : rest = [] := byteSize_eq_zero_iff.mp (by omega)
    exact ⟨[], by simp⟩

/-- A boundary of a text determines what stands before it. -/
theorem eq_of_byteSize_eq {a b text : List Char} (ha : a <+: text) (hb : b <+: text)
    (h : byteSize a = byteSize b) : a = b := by
  obtain ⟨rest, rfl⟩ := prefix_of_byteSize_le ha hb (Nat.le_of_eq h)
  have hrest : byteSize rest = 0 := by
    rw [byteSize_append] at h
    omega
  rw [byteSize_eq_zero_iff.mp hrest, List.append_nil]

/-- Cutting a piece at a boundary that may lie behind its end gives the smaller of the two. -/
theorem byteSize_takeBytes_of_prefix {a b text : List Char} (ha : a <+: text) (hb : b <+: text) :
    byteSize (takeBytes (byteSize a) b) = min (byteSize a) (byteSize b) := by
  rcases Nat.le_total (byteSize a) (byteSize b) with h | h
  · obtain ⟨rest, rfl⟩ := prefix_of_byteSize_le ha hb h
    rw [takeBytes_byteSize_append, Nat.min_eq_left h]
  · rw [takeBytes_of_byteSize_le h, Nat.min_eq_right h]

end QueryLocator.Text
