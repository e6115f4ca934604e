import QueryLocator.Proofs.NumeralReading

/-! # How numbers are written

Every number of a JSON value is written as a numeral, and the numeral has the value of the number
(`exists_numeral`): an integer by its digits, a floating point number by its shortest decimal, whether
the digits are positional or have an exponent behind them.
-/
namespace QueryLocator.Json

open Decimal Grammar

/-! ## Digits of numerals -/

theorem ofDigitChars_digitsOf (n : ℕ) : Nat.ofDigitChars 10 (digitsOf n) 0 = n :=
  Nat.ofDigitChars_ten_toDigits

theorem digitsOf_ne_nil (n : ℕ) : digitsOf n ≠ [] :=
  Nat.toDigits_ne_nil

/-- A zero in front stands alone. -/
theorem leading_digitsOf (n : ℕ) : digitsOf n = ['0'] ∨ (digitsOf n).head? ≠ some '0' := by
  rcases Nat.eq_zero_or_pos n with rfl | hpos
  · exact Or.inl rfl
  · exact Or.inr (head?_digitsOf_ne hpos)

/-- Zeros behind digits. -/
theorem ofDigitChars_append_zeros (digits : List Char) (count : ℕ) :
    Nat.ofDigitChars 10 (digits ++ List.replicate count '0') 0 =
      Nat.ofDigitChars 10 digits 0 * 10 ^ count := by
  rw [Nat.ofDigitChars_append, Nat.ofDigitChars_replicate_zero, Nat.mul_comm]

/-- Zeros in front of digits. -/
theorem ofDigitChars_zeros_append (digits : List Char) (count : ℕ) :
    Nat.ofDigitChars 10 (List.replicate count '0' ++ digits) 0 = Nat.ofDigitChars 10 digits 0 := by
  rw [Nat.ofDigitChars_append, Nat.ofDigitChars_replicate_zero, Nat.mul_zero]

theorem isDigit_of_mem_zeros {count : ℕ} {c : Char} (h : c ∈ List.replicate count '0') :
    c.isDigit = true := by
  rw [List.eq_of_mem_replicate h]
  rfl

/-! ## Decimals -/

/-- A text that a numeral has, for a sign and a magnitude. -/
def Writes (text : List Char) (magnitude : ℚ) : Prop :=
  ∀ negative, ∃ numeral : Numeral, numeral.negative = negative ∧ numeral.unsigned = text ∧
    numeral.coefficient * 10 ^ numeral.power = magnitude

section Decimals
variable {digits exponent : ℕ}

/-- Digits with zeros behind them, and a point. -/
theorem writes_zeros_behind (h : 0 < digits ∨ exponent = 0) :
    Writes (digitsOf digits ++ List.replicate exponent '0' ++ ['.', '0'])
      (digits * 10 ^ exponent) := by
  intro negative
  refine ⟨{
    negative := negative
    whole := digitsOf digits ++ List.replicate exponent '0'
    fraction := ['0']
    exponent? := none
    whole_ne_nil := by simp [digitsOf_ne_nil]
    isDigit_whole := ?_
    whole_leading := ?_ }, rfl, ?_, ?_⟩
  · intro c hc
    rcases List.mem_append.mp hc with hc | hc
    · exact isDigit_of_mem_digitsOf hc
    · exact isDigit_of_mem_zeros hc
  · rcases h with hpos | rfl
    · right
      rw [List.head?_append_of_ne_nil _ (digitsOf_ne_nil _)]
      exact head?_digitsOf_ne hpos
    · rw [List.replicate_zero, List.append_nil]
      exact leading_digitsOf digits
  · simp [Numeral.unsigned, Numeral.fractionText, Numeral.exponentText]
  · have hdigits : digitsOf digits ++ List.replicate exponent '0' ++ ['0'] =
        digitsOf digits ++ List.replicate (exponent + 1) '0' := by
      rw [List.replicate_succ', List.append_assoc]
    rw [Numeral.coefficient, Numeral.power]
    dsimp only
    rw [hdigits, ofDigitChars_append_zeros, ofDigitChars_digitsOf]
    norm_num [pow_succ, zpow_neg]
    field_simp

/-- Digits with a point among them. -/
theorem writes_point_inside (hpos : 0 < digits) (hexponent : 0 < exponent)
    (h : exponent < (digitsOf digits).length) :
    Writes ((digitsOf digits).take ((digitsOf digits).length - exponent) ++
        '.' :: (digitsOf digits).drop ((digitsOf digits).length - exponent))
      (digits * 10 ^ (-exponent : ℤ)) := by
  intro negative
  obtain ⟨front, hfront⟩ : ∃ front, front = (digitsOf digits).length - exponent := ⟨_, rfl⟩
  rw [← hfront]
  have hdrop : ((digitsOf digits).drop front).length = exponent := by
    rw [List.length_drop]
    omega
  have hfraction : (digitsOf digits).drop front ≠ [] := by
    rw [← List.length_pos_iff, hdrop]
    exact hexponent
  refine ⟨{
    negative := negative
    whole := (digitsOf digits).take front
    fraction := (digitsOf digits).drop front
    exponent? := none
    whole_ne_nil := ?_
    isDigit_whole := fun c hc => isDigit_of_mem_digitsOf (List.mem_of_mem_take hc)
    isDigit_fraction := fun c hc => isDigit_of_mem_digitsOf (List.mem_of_mem_drop hc)
    whole_leading := ?_ }, rfl, ?_, ?_⟩
  · rw [← List.length_pos_iff, List.length_take]
    omega
  · right
    rw [List.head?_take, if_neg (by omega)]
    exact head?_digitsOf_ne hpos
  · rw [Numeral.unsigned, Numeral.fractionText, Numeral.exponentText]
    dsimp only
    split
    next hnil => exact absurd hnil hfraction
    next => rw [List.append_nil]
  · rw [Numeral.coefficient, Numeral.power]
    dsimp only
    rw [List.take_append_drop, ofDigitChars_digitsOf, hdrop, Option.elim_none, zero_sub]

/-- Digits behind a point, with zeros between. -/
theorem writes_zeros_in_front (h : (digitsOf digits).length ≤ exponent) :
    Writes ('0' :: '.' :: (List.replicate (exponent - (digitsOf digits).length) '0' ++
      digitsOf digits)) (digits * 10 ^ (-exponent : ℤ)) := by
  intro negative
  refine ⟨{
    negative := negative
    whole := ['0']
    fraction := List.replicate (exponent - (digitsOf digits).length) '0' ++ digitsOf digits
    exponent? := none
    isDigit_fraction := ?_ }, rfl, ?_, ?_⟩
  · intro c hc
    rcases List.mem_append.mp hc with hc | hc
    · exact isDigit_of_mem_zeros hc
    · exact isDigit_of_mem_digitsOf hc
  · rw [Numeral.unsigned, Numeral.fractionText, Numeral.exponentText]
    dsimp only
    split
    next hnil => simp [digitsOf_ne_nil] at hnil
    next => rw [List.append_nil, List.singleton_append]
  · have hzeros : ['0'] ++ (List.replicate (exponent - (digitsOf digits).length) '0' ++
        digitsOf digits) =
        List.replicate (exponent - (digitsOf digits).length + 1) '0' ++ digitsOf digits := by
      rw [List.replicate_succ, List.singleton_append, List.cons_append]
    have hlength : (List.replicate (exponent - (digitsOf digits).length) '0' ++
        digitsOf digits).length = exponent := by
      rw [List.length_append, List.length_replicate]
      omega
    rw [Numeral.coefficient, Numeral.power]
    dsimp only
    rw [hzeros, ofDigitChars_zeros_append, ofDigitChars_digitsOf, hlength, Option.elim_none, zero_sub]

/-- One digit in front of the point, and an exponent. -/
theorem writes_scientific (digits : ℕ) (leading : ℤ) :
    Writes (JsonNumber.scientific (digitsOf digits) leading)
      (digits * 10 ^ (leading - ((digitsOf digits).length - 1))) := by
  intro negative
  obtain ⟨first, more, hdigits⟩ := List.exists_cons_of_ne_nil (digitsOf_ne_nil digits)
  have hdigit : ∀ c ∈ first :: more, c.isDigit = true := by
    rw [← hdigits]
    exact fun c => isDigit_of_mem_digitsOf
  obtain ⟨shift, hshift⟩ : ∃ shift : Exponent, shift = {
      letter := 'e'
      sign := [if leading < 0 then '-' else '+']
      digits := digitsOf leading.natAbs
      sign_mem := by split <;> decide
      digits_ne_nil := digitsOf_ne_nil _
      isDigit := fun c => isDigit_of_mem_digitsOf } := ⟨_, rfl⟩
  have hvalue : shift.value = leading := by
    rw [hshift, Exponent.value]
    dsimp only
    rw [ofDigitChars_digitsOf]
    have hsign : [if leading < 0 then '-' else '+'] = ['-'] ↔ leading < 0 := by
      by_cases hnegative : leading < 0 <;> simp [hnegative]
    simp only [hsign]
    split <;> omega
  refine ⟨{
    negative := negative
    whole := [first]
    fraction := more
    exponent? := some shift
    whole_ne_nil := List.cons_ne_nil _ _
    isDigit_whole := fun c hc => hdigit c (by simp_all)
    isDigit_fraction := fun c hc => hdigit c (List.mem_cons_of_mem _ hc)
    whole_leading := ?_ }, rfl, ?_, ?_⟩
  · by_cases hzero : first = '0'
    · exact Or.inl (by rw [hzero])
    · exact Or.inr (by simpa using hzero)
  · unfold JsonNumber.scientific
    rw [Numeral.unsigned, Numeral.fractionText, Numeral.exponentText, hdigits, hshift]
    cases more <;> rfl
  · have hlength : ((first :: more).length : ℤ) - 1 = more.length := by simp
    rw [Numeral.coefficient, Numeral.power]
    dsimp only
    rw [List.singleton_append, ← hdigits, ofDigitChars_digitsOf, Option.elim_some, hvalue, hdigits,
      hlength]

end Decimals

/-! ## Numbers -/

/-- A decimal is written positionally or with an exponent, whatever its size. -/
theorem writes_decimal {decimal : Scaled} (h : decimal = ⟨0, 0⟩ ∨ 0 < decimal.digits) (leading : ℤ)
    (hleading : leading = decimal.exponent + (digitsOf decimal.digits).length - 1) :
    Writes (if -5 ≤ leading ∧ leading < 16 then
        JsonNumber.positional (digitsOf decimal.digits) decimal.exponent
      else JsonNumber.scientific (digitsOf decimal.digits) leading) decimal.value := by
  obtain ⟨digits, exponent⟩ := decimal
  unfold Scaled.value
  dsimp only at *
  split
  next =>
    unfold JsonNumber.positional
    by_cases hexponent : 0 ≤ exponent
    · obtain ⟨zeros, rfl⟩ := Int.eq_ofNat_of_zero_le hexponent
      rw [if_pos hexponent, Int.toNat_natCast, zpow_natCast]
      refine writes_zeros_behind ?_
      rcases h with hzero | hpos
      · injection hzero with _ hzero
        exact Or.inr (by omega)
      · exact Or.inl hpos
    · obtain ⟨places, rfl⟩ : ∃ places : ℕ, exponent = -places := ⟨(-exponent).toNat, by omega⟩
      have hpos : 0 < digits := by
        rcases h with hzero | hpos
        · injection hzero with _ hzero
          omega
        · exact hpos
      rw [if_neg hexponent, neg_neg, Int.toNat_natCast]
      dsimp only
      split
      next hless => exact writes_point_inside hpos (by omega) hless
      next hmore => exact writes_zeros_in_front (Nat.le_of_not_lt hmore)
  next =>
    have hexponent : exponent = leading - ((digitsOf digits).length - 1) := by omega
    rw [hexponent]
    exact writes_scientific digits leading

/-- **A number is written as a numeral that has its value.** -/
theorem exists_numeral (value : JsonNumber) :
    ∃ numeral : Numeral, numeral.text = value.text ∧ numeral.value = value.value := by
  cases value with
  | integer value =>
    refine ⟨{
      negative := decide (value < 0)
      whole := digitsOf value.natAbs
      fraction := []
      exponent? := none
      whole_ne_nil := digitsOf_ne_nil _
      isDigit_whole := fun c => isDigit_of_mem_digitsOf
      whole_leading := leading_digitsOf _ }, ?_, ?_⟩
    · simp [Numeral.text, Numeral.unsigned, Numeral.fractionText, Numeral.exponentText,
        JsonNumber.text, JsonNumber.integerText]
    · rw [Numeral.value, Numeral.coefficient, Numeral.power, JsonNumber.value]
      dsimp only
      rw [List.append_nil, ofDigitChars_digitsOf, Option.elim_none, List.length_nil, Nat.cast_zero,
        sub_zero, zpow_zero, mul_one]
      by_cases hnegative : value < 0
      · have habs : ((value.natAbs : ℤ) : ℚ) = -value := by
          rw [← Int.cast_neg]
          congr 1
          omega
        rw [if_pos (by simpa using hnegative), neg_one_mul, ← Int.cast_natCast, habs, neg_neg]
      · have habs : ((value.natAbs : ℤ) : ℚ) = value := by
          congr 1
          omega
        rw [if_neg (by simpa using hnegative), one_mul, ← Int.cast_natCast, habs]
  | float negative magnitude =>
    obtain ⟨numeral, hnegative, hunsigned, hvalue⟩ :=
      writes_decimal magnitude.shortest_eq_zero_or_pos _ rfl negative
    refine ⟨numeral, ?_, ?_⟩
    · rw [Numeral.text, hnegative, hunsigned]
      rfl
    · rw [Numeral.value, hnegative, hvalue]
      rfl

end QueryLocator.Json
