import QueryLocator.Proofs.JsonGrammar
import QueryLocator.Proofs.JsonText
import QueryLocator.Proofs.ShortestDecimal

/-! # How numerals are read

What a numeral is read as depends on the numeral alone, not on the text behind it (`Settles`), as
long as that text does not go on with the number.  Where a numeral has few digits and a small
exponent, or is an integer of 64 bits, the number that is read has the value of the numeral
(`value_of_readsAs`).
-/
namespace QueryLocator

open Decimal Grammar

/-- The number that the text of a JSON number stands for. -/
def JsonNumber.value : JsonNumber → ℚ
  | integer value => value
  | float negative magnitude => (if negative then -1 else 1) * magnitude.shortest.value

/-- A numeral that is kept exactly: an integer of 64 bits, with or without a sign, a zero, or a numeral
with at most fifteen digits and a power of ten from `-22` to `22`. -/
def Grammar.Numeral.IsPlain (numeral : Numeral) : Prop :=
  (numeral.IsInteger ∧ -2 ^ 63 ≤ numeral.value ∧ numeral.value < 2 ^ 64) ∨ numeral.coefficient = 0 ∨
    (numeral.coefficient < 10 ^ 15 ∧ -22 ≤ numeral.power ∧ numeral.power ≤ 22)

namespace Json

/-! ## Readers that settle -/

/-- A reader takes a text off the front whatever follows, or refuses it whatever follows. -/
def Settles (reader : JsonReader JsonNumber) (text : List Char) (value? : Option JsonNumber) : Prop :=
  ∀ rest, EndsNumber rest → (reader (text ++ rest)).toOption = value?.map fun value => (value, rest)

/-- The floating point number of digits and a power of ten, if it is not out of range. -/
def float? (negative : Bool) (digits : ℕ) (exponent : ℤ) : Option JsonNumber :=
  ((Binary64.ofNat digits).bind fun x => scale 4 x exponent).map (.float negative)

theorem toOption_floatOf (negative : Bool) (digits : ℕ) (exponent : ℤ) (rest : List Char) :
    (floatOf negative digits exponent rest).toOption =
      (float? negative digits exponent).map fun value => (value, rest) := by
  unfold floatOf float?
  split
  next heq =>
    rw [heq]
    rfl
  next heq =>
    rw [heq]
    rfl

/-! ## Exponents -/

section Exponents
variable {digits rest : List Char}

/-- The digits of an exponent are read to their end, or up to the one with which it is too large. -/
theorem readExponentDigits_append {value : ℕ} (hdigits : ∀ c ∈ digits, c.isDigit = true)
    (hrest : startsWithDigit rest = false) (hvalue : value ≤ maxExponent) :
    (Nat.ofDigitChars 10 digits value ≤ maxExponent ∧
      readExponentDigits value (digits ++ rest) = (some (Nat.ofDigitChars 10 digits value), rest)) ∨
    (maxExponent < Nat.ofDigitChars 10 digits value ∧ ∃ more, (∀ c ∈ more, c.isDigit = true) ∧
      readExponentDigits value (digits ++ rest) = (none, more ++ rest)) := by
  induction digits generalizing value with
  | nil =>
    left
    refine ⟨by simpa using hvalue, ?_⟩
    cases rest with
    | nil => rfl
    | cons c rest =>
      have hc : c.isDigit = false := hrest
      simp [readExponentDigits, hc]
  | cons c digits ih =>
    rw [List.cons_append, readExponentDigits, hdigits c (List.mem_cons_self ..), if_pos rfl,
      Nat.ofDigitChars_cons, mul_ten_add_digitValue]
    dsimp only
    by_cases hle : 10 * value + (c.toNat - '0'.toNat) ≤ maxExponent
    · rw [if_pos hle]
      exact ih (fun d hd => hdigits d (List.mem_cons_of_mem c hd)) hle
    · right
      rw [if_neg hle]
      have := le_ofDigitChars digits (10 * value + (c.toNat - '0'.toNat))
      exact ⟨by omega, digits, fun d hd => hdigits d (List.mem_cons_of_mem c hd), rfl⟩

theorem skipDigits_append (hdigits : ∀ c ∈ digits, c.isDigit = true)
    (hrest : startsWithDigit rest = false) : skipDigits (digits ++ rest) = rest := by
  unfold skipDigits
  rw [List.dropWhile_append_of_pos hdigits]
  cases rest with
  | nil => rfl
  | cons c rest =>
    have hc : c.isDigit = false := hrest
    exact List.dropWhile_cons_of_neg (by simp [hc])

end Exponents

/-- What a reader of an exponent gives: the floating point number, or zero where there are no other
digits or the exponent is far below zero. -/
def Scales (negative : Bool) (digits : ℕ) (exponent shift : ℤ) (value? : Option JsonNumber) : Prop :=
  ∀ value, value? = some value → float? negative digits (exponent + shift) = some value ∨
    (value = .float negative .zero ∧ (digits = 0 ∨ shift < -maxExponent))

/-- The digits of an exponent whose sign has been read. -/
def readUnsignedExponent (negative : Bool) (digits : ℕ) (exponent : ℤ) (down : Bool) :
    JsonReader JsonNumber := fun text =>
  match readExponentDigits 0 text with
  | (some value, rest) =>
    floatOf negative digits (if down then exponent - value else exponent + value) rest
  | (none, rest) =>
    if digits ≠ 0 ∧ !down then JsonFailure.here .numberOutOfRange rest
    else .ok (.float negative .zero, skipDigits rest)

theorem readExponent_append {negative : Bool} {digits : ℕ} {exponent : ℤ} {sign rest : List Char}
    {c : Char} (hsign : sign ∈ [[], ['+'], ['-']]) (hc : c.isDigit = true) :
    readExponent negative digits exponent (sign ++ c :: rest) =
      readUnsignedExponent negative digits exponent (decide (sign = ['-'])) (c :: rest) := by
  have hplus : c ≠ '+' := by
    rintro rfl
    cases hc
  have hminus : c ≠ '-' := by
    rintro rfl
    cases hc
  have hdigit : ¬(!c.isDigit) = true := by simp [hc]
  have hplain : readExponent negative digits exponent (c :: rest) =
      readExponent negative digits exponent ('+' :: c :: rest) := by
    simp [readExponent, hplus, hminus]
  simp only [List.mem_cons, List.not_mem_nil, or_false] at hsign
  rcases hsign with rfl | rfl | rfl
  · rw [List.nil_append, hplain]
    exact if_neg hdigit
  · exact if_neg hdigit
  · exact if_neg hdigit

/-- An exponent behind its letter. -/
theorem exists_settles_readExponent (negative : Bool) (digits : ℕ) (exponent : ℤ) (shift : Exponent) :
    ∃ value?, Settles (readExponent negative digits exponent) (shift.sign ++ shift.digits) value? ∧
      Scales negative digits exponent shift.value value? := by
  obtain ⟨down, hdown⟩ : ∃ down : Bool, down = decide (shift.sign = ['-']) := ⟨_, rfl⟩
  obtain ⟨size, hsize⟩ : ∃ size, size = Nat.ofDigitChars 10 shift.digits 0 := ⟨_, rfl⟩
  have hvalue : shift.value = if down then -(size : ℤ) else size := by
    rw [hdown, hsize, Exponent.value]
    simp
  have hread : ∀ rest, readExponent negative digits exponent ((shift.sign ++ shift.digits) ++ rest) =
      readUnsignedExponent negative digits exponent down (shift.digits ++ rest) := by
    intro rest
    obtain ⟨c, others, hcons⟩ := List.exists_cons_of_ne_nil shift.digits_ne_nil
    have hc : c.isDigit = true := shift.isDigit c (by rw [hcons]; exact List.mem_cons_self ..)
    rw [hdown, List.append_assoc, hcons, List.cons_append]
    exact readExponent_append shift.sign_mem hc
  by_cases hle : size ≤ maxExponent
  · refine ⟨float? negative digits (exponent + shift.value), ?_, fun value h => Or.inl h⟩
    intro rest hrest
    rcases readExponentDigits_append shift.isDigit hrest.startsWithDigit (Nat.zero_le _) with
      ⟨-, hdigits⟩ | ⟨hmore, -⟩
    · rw [hread, readUnsignedExponent, hdigits, hvalue, ← hsize]
      dsimp only
      rw [toOption_floatOf]
      cases down <;> rfl
    · omega
  · refine ⟨if digits ≠ 0 ∧ !down then none else some (.float negative .zero), ?_, ?_⟩
    · intro rest hrest
      rcases readExponentDigits_append shift.isDigit hrest.startsWithDigit (Nat.zero_le _) with
        ⟨hless, -⟩ | ⟨-, more, hmore, hdigits⟩
      · omega
      · rw [hread, readUnsignedExponent, hdigits]
        dsimp only
        rw [skipDigits_append hmore hrest.startsWithDigit]
        split <;> rfl
    · intro value h
      right
      split at h
      next => cases h
      next hzero =>
        refine ⟨(Option.some.inj h).symm, ?_⟩
        by_cases hdigits : digits = 0
        · exact Or.inl hdigits
        · right
          have hdown : down = true := by simpa [hdigits] using hzero
          rw [hvalue, hdown, if_pos rfl]
          omega

/-! ## Numerals -/

/-- The power of ten that the exponent of a numeral stands for. -/
def shiftOf (numeral : Numeral) : ℤ :=
  numeral.exponent?.elim 0 Exponent.value

section Numerals
variable (numeral : Numeral) (negative : Bool) (digits : ℕ) (exponent : ℤ)

/-- Behind the digits of a numeral its exponent follows, or nothing of it. -/
theorem exists_settles_readExponentPart :
    ∃ value?, Settles (readExponentPart negative digits exponent) numeral.exponentText value? ∧
      Scales negative digits exponent (shiftOf numeral) value? := by
  cases hexponent : numeral.exponent? with
  | none =>
    refine ⟨float? negative digits exponent, ?_, ?_⟩
    · intro rest hrest
      have hnone : readExponentPart negative digits exponent rest =
          floatOf negative digits exponent rest := by
        unfold readExponentPart
        split
        next => exact absurd rfl (hrest 'e' rfl).2.2.1
        next => exact absurd rfl (hrest 'E' rfl).2.2.2
        next => rfl
      rw [Numeral.exponentText, hexponent, List.nil_append, hnone]
      exact toOption_floatOf ..
    · intro value h
      left
      rw [shiftOf, hexponent, Option.elim_none, add_zero]
      exact h
  | some shift =>
    obtain ⟨value?, hsettles, hscales⟩ := exists_settles_readExponent negative digits exponent shift
    refine ⟨value?, ?_, ?_⟩
    · intro rest hrest
      have hletter := shift.letter_mem
      simp only [List.mem_cons, List.not_mem_nil, or_false] at hletter
      have hread : readExponentPart negative digits exponent (shift.text ++ rest) =
          readExponent negative digits exponent ((shift.sign ++ shift.digits) ++ rest) := by
        rw [Exponent.text, List.cons_append]
        rcases hletter with hletter | hletter <;> rw [hletter] <;> rfl
      rw [Numeral.exponentText, hexponent, hread]
      exact hsettles rest hrest
    · rw [shiftOf, hexponent, Option.elim_some]
      exact hscales

variable {numeral} {rest : List Char} (hrest : EndsNumber rest)
include hrest

theorem startsWithDigit_exponentText :
    startsWithDigit (numeral.exponentText ++ rest) = false := by
  cases hexponent : numeral.exponent? with
  | none =>
    rw [Numeral.exponentText, hexponent, List.nil_append]
    exact hrest.startsWithDigit
  | some shift =>
    have hletter := shift.letter_mem
    simp only [List.mem_cons, List.not_mem_nil, or_false] at hletter
    rw [Numeral.exponentText, hexponent]
    dsimp only
    rw [Exponent.text, List.cons_append]
    rcases hletter with hletter | hletter <;> rw [hletter] <;> rfl

theorem startsWithDigit_fractionText :
    startsWithDigit (numeral.fractionText ++ (numeral.exponentText ++ rest)) = false := by
  unfold Numeral.fractionText
  split
  next => exact startsWithDigit_exponentText hrest
  next => rfl

end Numerals

section Numbers
variable (numeral : Numeral) (negative : Bool)

/-- Behind the digits in front of its point, a numeral that is no integer has its other digits gathered
and its exponent read. -/
theorem exists_readNumberTail (hinteger : ¬numeral.IsInteger) (digits dropped : ℕ) :
    ∃ (coefficient : ℕ) (exponent : ℤ),
      (Nat.ofDigitChars 10 numeral.fraction digits ≤ maxUnsigned →
        coefficient = Nat.ofDigitChars 10 numeral.fraction digits ∧
          exponent = dropped - numeral.fraction.length) ∧
      ∀ rest, EndsNumber rest →
        readNumberTail negative digits dropped
            (numeral.fractionText ++ (numeral.exponentText ++ rest)) =
          readExponentPart negative coefficient exponent (numeral.exponentText ++ rest) := by
  cases hfraction : numeral.fraction with
  | nil =>
    refine ⟨digits, dropped, fun _ => ⟨rfl, by simp⟩, ?_⟩
    intro rest _
    cases hexponent : numeral.exponent? with
    | none => exact absurd ⟨hfraction, hexponent⟩ hinteger
    | some shift =>
      have hletter := shift.letter_mem
      simp only [List.mem_cons, List.not_mem_nil, or_false] at hletter
      rw [Numeral.fractionText, hfraction, List.nil_append, Numeral.exponentText, hexponent]
      dsimp only
      rw [Exponent.text, List.cons_append]
      rcases hletter with hletter | hletter <;> rw [hletter] <;> rfl
  | cons c others =>
    have hdigits := numeral.isDigit_fraction
    rw [hfraction] at hdigits
    obtain ⟨front, taken, back, hlength, hback, hall, hgather⟩ := exists_gatherDigits hdigits digits 0
    refine ⟨front, dropped - taken, ?_, ?_⟩
    · intro hmax
      obtain ⟨rfl, rfl⟩ := hall hmax
      have htaken : taken = (c :: others).length := by simpa using hlength
      exact ⟨rfl, by rw [htaken]⟩
    · intro rest hrest
      have hstop := @startsWithDigit_exponentText numeral rest hrest
      have hread : readNumberTail negative digits dropped
          (numeral.fractionText ++ (numeral.exponentText ++ rest)) =
          readFraction negative digits dropped ((c :: others) ++ (numeral.exponentText ++ rest)) := by
        rw [Numeral.fractionText, hfraction]
        rfl
      rw [hread, readFraction, hgather _ hstop]
      dsimp only
      cases back with
      | nil =>
        have htaken : taken ≠ 0 := by
          rw [List.length_nil, List.length_cons] at hlength
          omega
        rw [List.nil_append, hstop, if_neg Bool.false_ne_true, if_neg htaken]
      | cons d back =>
        have hstart : startsWithDigit ((d :: back) ++ (numeral.exponentText ++ rest)) = true :=
          hback d (List.mem_cons_self ..)
        rw [hstart, if_pos rfl, skipDigits_append hback hstop]

/-- The digits in front of the point are gathered, and those that do not fit are counted. -/
theorem exists_readNumber :
    ∃ digits dropped : ℕ,
      (Nat.ofDigitChars 10 numeral.whole 0 ≤ maxUnsigned →
        digits = Nat.ofDigitChars 10 numeral.whole 0 ∧ dropped = 0) ∧
      ∀ rest, startsWithDigit rest = false →
        readNumber negative (numeral.whole ++ rest) = readNumberTail negative digits dropped rest := by
  rcases numeral.whole_leading with hzero | hleading
  · refine ⟨0, 0, fun _ => ⟨by rw [hzero]; rfl, rfl⟩, ?_⟩
    intro rest hrest
    rw [hzero, List.singleton_append, readNumber, hrest, if_neg Bool.false_ne_true]
  · obtain ⟨front, taken, back, -, hback, hall, hgather⟩ :=
      exists_gatherDigits numeral.isDigit_whole 0 0
    refine ⟨front, back.length, ?_, ?_⟩
    · intro hmax
      obtain ⟨rfl, rfl⟩ := hall hmax
      exact ⟨rfl, rfl⟩
    · intro rest hrest
      obtain ⟨c, others, hcons⟩ := List.exists_cons_of_ne_nil numeral.whole_ne_nil
      have hc := numeral.isDigit_whole c (by rw [hcons]; exact List.mem_cons_self ..)
      have hgather := hgather rest hrest
      rw [hcons] at hleading hgather ⊢
      rw [List.cons_append] at hgather ⊢
      rw [readNumber]
      · simp only [hc, if_true, hgather, skipDigits_append hback hrest, List.length_append,
          Nat.add_sub_cancel]
      · rintro rfl
        exact hleading rfl

/-- An integer as it is read, if its digits fit into 64 bits. -/
def signed? (digits : ℕ) : Option JsonNumber :=
  if negative then
    if 0 < digits ∧ digits ≤ Nat.pow 2 63 then some (.integer (-digits)) else float? true digits 0
  else some (.integer digits)

theorem toOption_signedNumber (digits : ℕ) (rest : List Char) :
    (signedNumber negative digits rest).toOption =
      (signed? negative digits).map fun value => (value, rest) := by
  unfold signedNumber signed?
  split
  · split
    · rfl
    · exact toOption_floatOf ..
  · rfl

/-- **What a numeral is read as depends on the numeral alone.**  Digits that fit into 64 bits are
all of them read. -/
theorem exists_settles_readNumber :
    ∃ value?, Settles (readNumber negative) numeral.unsigned value? ∧
      (numeral.coefficient ≤ maxUnsigned →
        (numeral.IsInteger → value? = signed? negative numeral.coefficient) ∧
        (¬numeral.IsInteger →
          Scales negative numeral.coefficient (-numeral.fraction.length) (shiftOf numeral)
            value?)) := by
  obtain ⟨digits, dropped, hwhole, hnumber⟩ := exists_readNumber numeral negative
  have hcoefficient : numeral.coefficient =
      Nat.ofDigitChars 10 numeral.fraction (Nat.ofDigitChars 10 numeral.whole 0) :=
    Nat.ofDigitChars_append 0
  have hfits : numeral.coefficient ≤ maxUnsigned → Nat.ofDigitChars 10 numeral.whole 0 ≤ maxUnsigned :=
    fun hmax => Nat.le_trans (le_ofDigitChars numeral.fraction _) (hcoefficient ▸ hmax)
  have hread : ∀ rest, EndsNumber rest → readNumber negative (numeral.unsigned ++ rest) =
      readNumberTail negative digits dropped
        (numeral.fractionText ++ (numeral.exponentText ++ rest)) := by
    intro rest hrest
    rw [Numeral.unsigned, List.append_assoc, List.append_assoc]
    exact hnumber _ (startsWithDigit_fractionText hrest)
  by_cases hinteger : numeral.IsInteger
  · obtain ⟨hfraction, hexponent⟩ := hinteger
    have hempty : ∀ rest, numeral.fractionText ++ (numeral.exponentText ++ rest) = rest := by
      intro rest
      rw [Numeral.fractionText, hfraction, Numeral.exponentText, hexponent]
      rfl
    refine ⟨if dropped = 0 then signed? negative digits else float? negative digits dropped, ?_, ?_⟩
    · intro rest hrest
      rw [hread rest hrest, hempty]
      unfold readNumberTail
      split
      next => exact absurd rfl (hrest '.' rfl).2.1
      next => exact absurd rfl (hrest 'e' rfl).2.2.1
      next => exact absurd rfl (hrest 'E' rfl).2.2.2
      next =>
        split
        · exact toOption_signedNumber ..
        · exact toOption_floatOf ..
    · intro hmax
      obtain ⟨rfl, rfl⟩ := hwhole (hfits hmax)
      refine ⟨fun _ => ?_, fun hnot => absurd ⟨hfraction, hexponent⟩ hnot⟩
      rw [if_pos rfl, hcoefficient, hfraction, Nat.ofDigitChars_nil]
  · obtain ⟨coefficient, exponent, hdigits, htail⟩ :=
      exists_readNumberTail numeral negative hinteger digits dropped
    obtain ⟨value?, hsettles, hscales⟩ :=
      exists_settles_readExponentPart numeral negative coefficient exponent
    refine ⟨value?, ?_, ?_⟩
    · intro rest hrest
      rw [hread rest hrest, htail rest hrest]
      exact hsettles rest hrest
    · intro hmax
      obtain ⟨rfl, rfl⟩ := hwhole (hfits hmax)
      refine ⟨fun h => absurd h hinteger, fun _ => ?_⟩
      obtain ⟨hvalue, hexponent⟩ := hdigits (hcoefficient ▸ hmax)
      rw [hvalue, hexponent, ← hcoefficient, Nat.cast_zero, zero_sub] at hscales
      exact hscales

end Numbers

/-! ## Values -/

/-- What a numeral is read as, whatever follows. -/
def ReadsAs (numeral : Numeral) (value : JsonNumber) : Prop :=
  ∀ rest, EndsNumber rest →
    readNumber numeral.negative (numeral.unsigned ++ rest) = .ok (value, rest)

section Values
variable {numeral : Numeral} {value : JsonNumber} {rest rest' : List Char}

/-- A numeral that is read once is read always. -/
theorem readsAs_of_readNumber (hrest : EndsNumber rest)
    (h : readNumber numeral.negative (numeral.unsigned ++ rest) = .ok (value, rest')) :
    rest' = rest ∧ ReadsAs numeral value := by
  obtain ⟨value?, hsettles, -⟩ := exists_settles_readNumber numeral numeral.negative
  have hread := hsettles rest hrest
  rw [h] at hread
  obtain ⟨found, hfound, heq⟩ := Option.map_eq_some_iff.mp hread.symm
  obtain ⟨rfl, rfl⟩ := Prod.mk.inj heq
  refine ⟨rfl, fun other hother => toOption_eq_some_iff.mp ?_⟩
  rw [hsettles other hother, hfound]
  rfl

theorem ReadsAs.eq_some {value? : Option JsonNumber} (h : ReadsAs numeral value)
    (hsettles : Settles (readNumber numeral.negative) numeral.unsigned value?) :
    value? = some value := by
  have hread := hsettles [] endsNumber_nil
  rw [h [] endsNumber_nil] at hread
  obtain ⟨found, hfound, heq⟩ := Option.map_eq_some_iff.mp hread.symm
  rw [hfound, (Prod.mk.inj heq).1]

/-- Zero stays zero, whatever the power of ten. -/
theorem eq_of_float?_zero {negative : Bool} {exponent : ℤ}
    (h : float? negative 0 exponent = some value) : value = .float negative .zero := by
  have hproduct : ∀ power, Binary64.zero.mul power = some Binary64.zero := by
    intro power
    simp [Binary64.mul, Binary64.fraction, Binary64.zero, Binary64.round]
  have hquotient : ∀ power, Binary64.zero.div power = some Binary64.zero := by
    intro power
    simp [Binary64.div, Binary64.fraction, Binary64.zero, Binary64.round]
  obtain ⟨magnitude, hscale, rfl⟩ := Option.map_eq_some_iff.mp h
  have hscale : scale 4 Binary64.zero exponent = some magnitude := hscale
  rw [scale] at hscale
  have hmagnitude : magnitude = Binary64.zero := by
    by_cases hsmall : exponent.natAbs ≤ 308
    · rw [if_pos hsmall] at hscale
      obtain ⟨power, -, hscale⟩ := Option.bind_eq_some_iff.mp hscale
      rw [hproduct, hquotient, ite_self] at hscale
      exact (Option.some.inj hscale).symm
    · rw [if_neg hsmall] at hscale
      exact (Option.some.inj hscale).symm
  rw [hmagnitude]

theorem value_float_zero (negative : Bool) : (JsonNumber.float negative .zero).value = 0 := by
  have hshortest : Binary64.zero.shortest = ⟨0, 0⟩ := rfl
  rw [JsonNumber.value, hshortest, Scaled.value]
  simp

theorem value_of_coefficient_zero (h : numeral.coefficient = 0) : numeral.value = 0 := by
  rw [Numeral.value, h]
  simp

theorem value_of_isInteger (h : numeral.IsInteger) :
    numeral.value = (if numeral.negative then -1 else 1) * numeral.coefficient := by
  have hpower : numeral.power = 0 := by
    rw [Numeral.power, h.1, h.2]
    rfl
  rw [Numeral.value, hpower, zpow_zero, mul_one]

/-- Few digits with a small power of ten are kept. -/
theorem value_of_float? {negative : Bool} {digits : ℕ} {exponent : ℤ} (hpos : 0 < digits)
    (hdigits : digits < 10 ^ 15) (hlow : -22 ≤ exponent) (hhigh : exponent ≤ 22)
    (h : float? negative digits exponent = some value) :
    value.value = (if negative then -1 else 1) * (digits * 10 ^ exponent) := by
  obtain ⟨magnitude, hscale, rfl⟩ := Option.map_eq_some_iff.mp h
  obtain ⟨x, hx, hscale⟩ := Option.bind_eq_some_iff.mp hscale
  have hbits : digits < Nat.pow 2 53 := Nat.lt_trans hdigits (by decide)
  obtain ⟨hcovers, hnormal⟩ := Binary64.covers_of_scale hpos hbits hlow hhigh hx hscale
  rw [JsonNumber.value, Binary64.value_shortest_of_covers hnormal hdigits hcovers]

/-- An integer that fits is kept. -/
theorem value_of_signed? {negative : Bool} {digits : ℕ} (hdigits : negative = true → digits ≤ 2 ^ 63)
    (h : signed? negative digits = some value) :
    value.value = (if negative then -1 else 1) * digits := by
  unfold signed? at h
  cases negative with
  | false =>
    obtain rfl := Option.some.inj h
    simp [JsonNumber.value]
  | true =>
    have hbound : digits ≤ Nat.pow 2 63 := hdigits rfl
    rw [if_pos rfl] at h
    by_cases hpos : 0 < digits
    · rw [if_pos ⟨hpos, hbound⟩] at h
      obtain rfl := Option.some.inj h
      simp [JsonNumber.value]
    · obtain rfl : digits = 0 := by omega
      rw [if_neg (by simp)] at h
      rw [eq_of_float?_zero h, value_float_zero]
      simp

/-- The digits of a plain numeral fit into 64 bits, and those of a negative one into 63. -/
theorem coefficient_le_of_isPlain (h : numeral.IsPlain) :
    numeral.coefficient ≤ maxUnsigned ∧
      (numeral.IsInteger → numeral.negative = true → numeral.coefficient ≤ 2 ^ 63) := by
  have hmax : maxUnsigned = 2 ^ 64 - 1 := rfl
  rcases h with ⟨hinteger, hlow, hhigh⟩ | hzero | ⟨hfew, -⟩
  · rw [value_of_isInteger hinteger] at hlow hhigh
    cases hnegative : numeral.negative with
    | false =>
      rw [hnegative, if_neg Bool.false_ne_true, one_mul] at hhigh
      have : numeral.coefficient < 2 ^ 64 := by exact_mod_cast hhigh
      exact ⟨by omega, fun _ hfalse => Bool.noConfusion hfalse⟩
    | true =>
      rw [hnegative, if_pos rfl, neg_one_mul, neg_le_neg_iff] at hlow
      have : numeral.coefficient ≤ 2 ^ 63 := by exact_mod_cast hlow
      exact ⟨by omega, fun _ _ => this⟩
  · exact ⟨by omega, fun _ _ => by omega⟩
  · exact ⟨by omega, fun _ _ => by omega⟩

/-- **A plain numeral has the value of the number that it is read as.** -/
theorem value_of_readsAs (hplain : numeral.IsPlain) (h : ReadsAs numeral value) :
    value.value = numeral.value := by
  obtain ⟨value?, hsettles, hkind⟩ := exists_settles_readNumber numeral numeral.negative
  obtain ⟨hfits, hsigned⟩ := coefficient_le_of_isPlain hplain
  obtain ⟨hinteger, hscales⟩ := hkind hfits
  have hvalue := h.eq_some hsettles
  by_cases hwhole : numeral.IsInteger
  · rw [hinteger hwhole] at hvalue
    rw [value_of_signed? (hsigned hwhole) hvalue, value_of_isInteger hwhole]
  · have hpower : -(numeral.fraction.length : ℤ) + shiftOf numeral = numeral.power := by
      rw [Numeral.power, shiftOf]
      omega
    have hscaled := hscales hwhole value hvalue
    rw [hpower] at hscaled
    by_cases hzero : numeral.coefficient = 0
    · rw [value_of_coefficient_zero hzero]
      rcases hscaled with hfloat | ⟨hfloat, -⟩
      · rw [hzero] at hfloat
        rw [eq_of_float?_zero hfloat, value_float_zero]
      · rw [hfloat, value_float_zero]
    · rcases hplain with ⟨hinteger, -⟩ | hzero' | ⟨hfew, hlow, hhigh⟩
      · exact absurd hinteger hwhole
      · exact absurd hzero' hzero
      · rcases hscaled with hfloat | ⟨-, hdigits | hfar⟩
        · rw [value_of_float? (Nat.pos_of_ne_zero hzero) hfew hlow hhigh hfloat, Numeral.value]
        · exact absurd hdigits hzero
        · -- an exponent that is not read leaves no small power of ten
          have hexponent : (maxExponent : ℤ) = 2 ^ 31 - 1 := rfl
          omega

end Values

end Json
end QueryLocator
