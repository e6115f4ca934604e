import Mathlib.Order.Basic
import QueryLocator.Config.Dictionary

/-! # The order of names

A dictionary has its names in increasing order, and names are compared character by character.
Their bytes in UTF-8 come in the same order (`lt_iff_utf8Bytes_lt`), since the bytes of two
characters differ at some place and the smaller character has the smaller byte at the first such
place.
-/
namespace QueryLocator.Text

/-- The bytes of a text in UTF-8. -/
def utf8Bytes (text : String) : List UInt8 :=
  text.toUTF8.data.toList

theorem utf8Bytes_eq (text : String) :
    utf8Bytes text = text.toList.flatMap String.utf8EncodeChar := by
  rw [utf8Bytes, String.toUTF8_eq_toByteArray, ← String.utf8Encode_toList, List.utf8Encode,
    List.data_toByteArray]

/-- Two lists of bytes differ at some place, and at the first such place the left one has the
smaller byte. -/
def DiffersBelow : List UInt8 → List UInt8 → Prop
  | a :: s, b :: t => a < b ∨ (a = b ∧ DiffersBelow s t)
  | _, _ => False

/-- What comes behind two lists that differ does not matter for their order. -/
theorem DiffersBelow.append_lt {s t : List UInt8} (h : DiffersBelow s t) (x y : List UInt8) :
    s ++ x < t ++ y := by
  induction s generalizing t with
  | nil => exact h.elim
  | cons a s ih =>
    cases t with
    | nil => exact h.elim
    | cons b t =>
      rw [List.cons_append, List.cons_append, List.cons_lt_cons_iff]
      exact h.imp_right fun ⟨heq, hrest⟩ => ⟨heq, ih hrest⟩

/-- A smaller number has the smaller quotient, or the same one and the smaller remainder. -/
theorem div_lt_or_mod_lt {v w : Nat} (h : v < w) :
    v / 64 < w / 64 ∨ (v / 64 = w / 64 ∧ v % 64 < w % 64) := by
  omega

/-- **The bytes of two characters differ as the characters do.** -/
theorem differsBelow_utf8EncodeChar {c d : Char} (h : c < d) :
    DiffersBelow (String.utf8EncodeChar c) (String.utf8EncodeChar d) := by
  have hlt : c.val.toNat < d.val.toNat := UInt32.lt_iff_toNat_lt.mp h
  have hmax : d.val.toNat < 0x110000 := by
    rcases d.valid with hvalid | ⟨-, hvalid⟩
    · exact Nat.lt_trans hvalid (by decide)
    · exact hvalid
  unfold String.utf8EncodeChar
  dsimp only
  generalize c.val.toNat = v at hlt
  generalize d.val.toNat = w at hlt hmax
  -- six bits a byte, the highest ones first
  have hlow := div_lt_or_mod_lt hlt
  have hmid := @div_lt_or_mod_lt (v / 64) (w / 64)
  have hhigh := @div_lt_or_mod_lt (v / 64 / 64) (w / 64 / 64)
  have hquotients (n : Nat) : n / 4096 = n / 64 / 64 ∧ n / 262144 = n / 64 / 64 / 64 := by omega
  simp only [hquotients]
  split_ifs <;>
    simp only [DiffersBelow, UInt8.lt_iff_toNat_lt, ← UInt8.toNat_inj, UInt8.toNat_ofNat'] <;> omega

theorem flatMap_utf8EncodeChar_lt {s t : List Char} (h : s < t) :
    s.flatMap String.utf8EncodeChar < t.flatMap String.utf8EncodeChar := by
  induction s generalizing t with
  | nil =>
    cases t with
    | nil => exact absurd h (List.not_lt_nil _)
    | cons d t =>
      obtain ⟨b, bytes, hbytes⟩ :=
        List.exists_cons_of_ne_nil (String.utf8EncodeChar_ne_nil (c := d))
      rw [List.flatMap_nil, List.flatMap_cons, hbytes]
      exact List.nil_lt_cons ..
  | cons c s ih =>
    cases t with
    | nil => exact absurd h (List.not_lt_nil _)
    | cons d t =>
      rw [List.flatMap_cons, List.flatMap_cons]
      rcases List.cons_lt_cons_iff.mp h with hlt | ⟨rfl, hrest⟩
      · exact (differsBelow_utf8EncodeChar hlt).append_lt _ _
      · exact List.append_left_lt (ih hrest)

/-- **Names are in the order of their bytes.** -/
theorem lt_iff_utf8Bytes_lt {a b : String} : a < b ↔ utf8Bytes a < utf8Bytes b := by
  have hmono {a b : String} (h : a < b) : utf8Bytes a < utf8Bytes b := by
    rw [utf8Bytes_eq, utf8Bytes_eq]
    exact flatMap_utf8EncodeChar_lt (String.lt_iff.mp h)
  refine ⟨hmono, fun h => ?_⟩
  apply Classical.byContradiction
  intro hnot
  rcases Std.le_iff_lt_or_eq.mp (Std.not_lt.mp hnot) with hlt | rfl
  · exact Std.lt_irrefl (Std.lt_trans h (hmono hlt))
  · exact Std.lt_irrefl h

end QueryLocator.Text
