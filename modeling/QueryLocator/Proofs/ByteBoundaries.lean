import QueryLocator.Proofs.ByteCuts
import QueryLocator.Proofs.NameOrder

/-! # Boundaries seen from the bytes

A reader that has only the bytes of a text can tell from the byte behind an offset whether the text
may be cut there: the bytes that go on with a character are told apart by their two highest bits.
That test finds exactly the byte sizes of the prefixes (`isByteBoundary_iff`).

So a reader that stands inside a character can go back byte by byte.  It is at most three bytes away
from where the character begins (`le_snap_add_three`), and on the way it never goes below zero.
-/
namespace QueryLocator.Text

/-- The bytes of some characters in UTF-8. -/
def encode (text : List Char) : List UInt8 :=
  text.flatMap String.utf8EncodeChar

/-- Whether a byte goes on with a character that began before it. -/
def isContinuation (byte : UInt8) : Bool :=
  0x80 ≤ byte && byte < 0xC0

/-- Whether bytes can be cut at an offset: at their start, at their end, or in front of a byte that
begins a character. -/
def isByteBoundary (offset : Nat) (bytes : List UInt8) : Bool :=
  offset == 0 ||
    match bytes[offset]? with
    | some byte => !isContinuation byte
    | none => offset == bytes.length

@[simp] theorem encode_nil : encode [] = [] := rfl

theorem encode_cons (c : Char) (rest : List Char) :
    encode (c :: rest) = String.utf8EncodeChar c ++ encode rest := rfl

theorem utf8Bytes_eq_encode (text : String) : utf8Bytes text = encode text.toList :=
  utf8Bytes_eq text

@[simp] theorem length_encode (text : List Char) : (encode text).length = byteSize text := by
  induction text with
  | nil => rfl
  | cons c rest ih =>
    rw [encode_cons, List.length_append, ih, String.length_utf8EncodeChar, byteSize_cons]

/-! ## The bytes of a character -/

/-- A character of ASCII is its own byte.  Any other begins with a byte of the highest quarter, and
all the bytes behind that one are continuations. -/
theorem utf8EncodeChar_cases (c : Char) :
    (c.toNat < 0x80 ∧ String.utf8EncodeChar c = [UInt8.ofNat c.toNat]) ∨
      (0x80 ≤ c.toNat ∧ ∃ first others, String.utf8EncodeChar c = first :: others ∧
        0xC0 ≤ first ∧ ∀ byte ∈ others, isContinuation byte = true) := by
  have hcontinuation (n : Nat) : isContinuation (UInt8.ofNat (n % 64 + 128)) = true := by
    simp only [isContinuation, Bool.and_eq_true, decide_eq_true_eq, UInt8.le_iff_toNat_le,
      UInt8.lt_iff_toNat_lt, UInt8.toNat_ofNat', UInt8.reduceToNat]
    omega
  have hfirst (n : Nat) (hlow : 192 ≤ n) (hhigh : n < 256) : 0xC0 ≤ UInt8.ofNat n := by
    rw [UInt8.le_iff_toNat_le, UInt8.toNat_ofNat']
    simp only [UInt8.reduceToNat]
    omega
  show (c.val.toNat < 0x80 ∧ _ = [UInt8.ofNat c.val.toNat]) ∨ (0x80 ≤ c.val.toNat ∧ _)
  unfold String.utf8EncodeChar
  dsimp only
  generalize c.val.toNat = v
  -- one byte, or a first byte and as many continuations as the size asks for
  split_ifs with hone htwo hthree
  · exact Or.inl ⟨by omega, rfl⟩
  all_goals
    refine Or.inr ⟨by omega, _, _, rfl, hfirst _ (by omega) (by omega), ?_⟩
    simp only [List.forall_mem_cons, hcontinuation, List.not_mem_nil, false_imp_iff, implies_true,
      and_self]

/-- The first byte of a character is no continuation, and all the others are. -/
theorem exists_first_byte (c : Char) :
    ∃ first others, String.utf8EncodeChar c = first :: others ∧ isContinuation first = false ∧
      ∀ byte ∈ others, isContinuation byte = true := by
  rcases utf8EncodeChar_cases c with ⟨hlow, hbytes⟩ | ⟨-, first, others, hbytes, hfirst, hothers⟩
  · refine ⟨_, [], hbytes, ?_, by simp⟩
    have hbyte : UInt8.ofNat c.toNat < 0x80 := by
      rw [UInt8.lt_iff_toNat_lt, UInt8.toNat_ofNat']
      simp only [UInt8.reduceToNat]
      omega
    rw [isContinuation, Bool.and_eq_false_iff]
    exact Or.inl (decide_eq_false (UInt8.not_le.mpr hbyte))
  · refine ⟨first, others, hbytes, ?_, hothers⟩
    rw [isContinuation, Bool.and_eq_false_iff]
    exact Or.inr (decide_eq_false (UInt8.not_lt.mpr hfirst))

/-! ## Bytes of ASCII -/

section Ascii
variable {c d : Char}

/-- Characters of ASCII are told apart by their bytes. -/
theorem ofNat_toNat_eq_iff (hc : c.toNat < 0x80) (hd : d.toNat < 0x80) :
    UInt8.ofNat c.toNat = UInt8.ofNat d.toNat ↔ c = d := by
  constructor
  · intro h
    rw [← UInt8.toNat_inj, UInt8.toNat_ofNat', UInt8.toNat_ofNat'] at h
    apply Char.ext
    rw [← UInt32.toNat_inj]
    show c.toNat = d.toNat
    omega
  · rintro rfl
    rfl

/-- A text begins with a character of ASCII when its bytes begin with the byte of that character. -/
theorem head?_encode_eq_iff {text : List Char} (hd : d.toNat < 0x80) :
    (encode text).head? = some (UInt8.ofNat d.toNat) ↔ text.head? = some d := by
  cases text with
  | nil => simp
  | cons c rest =>
    rw [encode_cons]
    rcases utf8EncodeChar_cases c with ⟨hlow, hbytes⟩ | ⟨hhigh, first, others, hbytes, hfirst, -⟩
    · simp [hbytes, ofNat_toNat_eq_iff hlow hd]
    · have hbyte : first ≠ UInt8.ofNat d.toNat := by
        rintro rfl
        rw [UInt8.le_iff_toNat_le, UInt8.toNat_ofNat'] at hfirst
        simp only [UInt8.reduceToNat] at hfirst
        omega
      have hne : c ≠ d := by
        rintro rfl
        omega
      simp [hbytes, hbyte, hne]

/-- All bytes of a character behind ASCII are behind ASCII. -/
theorem le_of_mem_utf8EncodeChar (hc : 0x80 ≤ c.toNat) :
    ∀ byte ∈ String.utf8EncodeChar c, 0x80 ≤ byte := by
  rcases utf8EncodeChar_cases c with ⟨hlow, -⟩ | ⟨-, first, others, hbytes, hfirst, hothers⟩
  · omega
  · rw [hbytes, List.forall_mem_cons]
    refine ⟨UInt8.le_trans (by decide) hfirst, fun byte hbyte => ?_⟩
    exact of_decide_eq_true (Bool.and_eq_true_iff.mp (hothers byte hbyte)).1

end Ascii

/-! ## Which offsets are boundaries -/

section Boundary
variable {c : Char} {rest : List Char} {offset : Nat}

theorem isBoundary_zero (text : List Char) : IsBoundary 0 text :=
  ⟨[], List.nil_prefix, rfl⟩

theorem isBoundary_nil_iff : IsBoundary offset [] ↔ offset = 0 := by
  constructor
  · intro h
    exact Nat.le_zero.mp h.le_byteSize
  · rintro rfl
    exact isBoundary_zero []

/-- A text can be cut in front of its first character, and where what is behind that one can be. -/
theorem isBoundary_cons_iff :
    IsBoundary offset (c :: rest) ↔
      offset = 0 ∨ ∃ behind, offset = c.utf8Size + behind ∧ IsBoundary behind rest := by
  constructor
  · rintro ⟨pre, hpre, rfl⟩
    cases pre with
    | nil => exact Or.inl rfl
    | cons d pre =>
      obtain ⟨rfl, hrest⟩ := List.cons_prefix_cons.mp hpre
      exact Or.inr ⟨byteSize pre, rfl, pre, hrest, rfl⟩
  · rintro (rfl | ⟨_, rfl, pre, hpre, rfl⟩)
    · exact isBoundary_zero _
    · exact ⟨c :: pre, List.cons_prefix_cons.mpr ⟨rfl, hpre⟩, rfl⟩

/-- Behind its first byte a character cannot be cut. -/
theorem isByteBoundary_inside (hpos : 0 < offset) (hlt : offset < c.utf8Size) :
    isByteBoundary offset (encode (c :: rest)) = false := by
  obtain ⟨first, others, hbytes, -, hothers⟩ := exists_first_byte c
  have hlength := String.length_utf8EncodeChar c
  obtain ⟨further, rfl⟩ : ∃ n, offset = n + 1 := ⟨offset - 1, by omega⟩
  rw [hbytes, List.length_cons] at hlength
  have hfurther : further < others.length := by omega
  have hbyte : (encode (c :: rest))[further + 1]? = some others[further] := by
    rw [encode_cons, hbytes, List.cons_append, List.getElem?_cons_succ,
      List.getElem?_append_left hfurther, List.getElem?_eq_getElem hfurther]
  rw [isByteBoundary, hbyte]
  simp [hothers _ (List.getElem_mem hfurther)]

/-- Behind a character the test looks at what is behind it. -/
theorem isByteBoundary_behind :
    isByteBoundary (c.utf8Size + offset) (encode (c :: rest)) =
      isByteBoundary offset (encode rest) := by
  have hlength := String.length_utf8EncodeChar c
  have hpos := c.utf8Size_pos
  have hbyte : (encode (c :: rest))[c.utf8Size + offset]? = (encode rest)[offset]? := by
    rw [encode_cons, List.getElem?_append_right (by omega), hlength, Nat.add_sub_cancel_left]
  by_cases hzero : offset = 0
  · -- the byte right behind the character begins another one, or there is none
    subst hzero
    cases rest with
    | nil => simp [isByteBoundary, encode_cons, hlength]
    | cons d rest =>
      obtain ⟨first, others, hbytes, hfirst, -⟩ := exists_first_byte d
      have hnext : (encode (d :: rest))[0]? = some first := by
        rw [encode_cons, hbytes]
        rfl
      rw [hnext] at hbyte
      rw [isByteBoundary, hbyte]
      simp [hfirst, isByteBoundary]
  · have hsize : (encode (c :: rest)).length = c.utf8Size + (encode rest).length := by
      rw [length_encode, length_encode, byteSize_cons]
    have hne : c.utf8Size + offset ≠ 0 := by omega
    have hcancel : (c.utf8Size + offset == c.utf8Size + (encode rest).length) =
        (offset == (encode rest).length) := by
      rw [Bool.eq_iff_iff, beq_iff_eq, beq_iff_eq, Nat.add_left_cancel_iff]
    rw [isByteBoundary, isByteBoundary, hbyte, hsize, hcancel, beq_false_of_ne hzero,
      beq_false_of_ne hne]

end Boundary

/-- **The bytes tell where a text can be cut.** -/
theorem isByteBoundary_iff {offset : Nat} {text : List Char} :
    isByteBoundary offset (encode text) = true ↔ IsBoundary offset text := by
  induction text generalizing offset with
  | nil =>
    rw [isBoundary_nil_iff]
    simp [isByteBoundary]
  | cons c rest ih =>
    rw [isBoundary_cons_iff]
    by_cases hzero : offset = 0
    · simp [isByteBoundary, hzero]
    by_cases hinside : offset < c.utf8Size
    · rw [isByteBoundary_inside (by omega) hinside]
      simp only [Bool.false_eq_true, hzero, false_or, false_iff]
      rintro ⟨behind, rfl, -⟩
      omega
    · obtain ⟨behind, rfl⟩ := Nat.exists_eq_add_of_le (Nat.le_of_not_lt hinside)
      rw [isByteBoundary_behind, ih]
      simp only [hzero, false_or]
      constructor
      · intro h
        exact ⟨behind, rfl, h⟩
      · rintro ⟨other, hother, h⟩
        obtain rfl : behind = other := by omega
        exact h

theorem isByteBoundary_eq_false_iff {offset : Nat} {text : List Char} :
    isByteBoundary offset (encode text) = false ↔ ¬IsBoundary offset text := by
  rw [← isByteBoundary_iff, Bool.not_eq_true]

/-! ## Going back to a boundary -/

/-- Bytes behind the end of a text take nothing more. -/
theorem takeBytes_min (n : Nat) (text : List Char) :
    takeBytes (min n (byteSize text)) text = takeBytes n text := by
  rcases Nat.le_total n (byteSize text) with h | h
  · rw [Nat.min_eq_left h]
  · rw [Nat.min_eq_right h, takeBytes_of_byteSize_le h, takeBytes_of_byteSize_le (Nat.le_refl _)]

section Snap
variable {offset : Nat} {text : List Char}

theorem snap_of_isBoundary (h : IsBoundary offset text) : snap offset text = offset := by
  obtain ⟨pre, hpre, rfl⟩ := h
  exact snap_of_prefix hpre

/-- An offset that is no boundary belongs to the same place as the one before it. -/
theorem snap_succ (h : ¬IsBoundary (offset + 1) text) : snap (offset + 1) text = snap offset text := by
  have hne : snap (offset + 1) text ≠ offset + 1 := by
    intro hsame
    exact h (hsame ▸ isBoundary_snap (offset + 1) text)
  have hle := snap_le (offset + 1) text
  apply Nat.le_antisymm
  · exact le_snap (isBoundary_snap _ text) (by omega)
  · exact le_snap (isBoundary_snap _ text) (Nat.le_trans (snap_le offset text) (by omega))

/-- **A boundary is at most three bytes away**, as no character takes more than four. -/
theorem le_snap_add_three (h : offset ≤ byteSize text) : offset ≤ snap offset text + 3 := by
  induction text generalizing offset with
  | nil =>
    rw [byteSize_nil] at h
    omega
  | cons c rest ih =>
    have hsize := c.utf8Size_le_four
    rw [byteSize_cons] at h
    by_cases hc : c.utf8Size ≤ offset
    · have hrest := @ih (offset - c.utf8Size) (by omega)
      simp only [snap, takeBytes, hc, if_true, byteSize_cons] at hrest ⊢
      omega
    · omega

end Snap

end QueryLocator.Text
