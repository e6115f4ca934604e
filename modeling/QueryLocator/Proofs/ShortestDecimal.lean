import Mathlib.Data.Nat.Cast.Order.Field
import QueryLocator.Proofs.BinaryRounding

/-! # The shortest decimal of a number

Every decimal with at most fifteen digits that rounds to a number is the shortest decimal of the number
(`value_shortest_of_covers`): no coarser grid has another point that rounds to it.  A point of a grid
rounds to the number only if one of the two points next to the number does, so a grid is passed over
only where it has no such point (`isSome_onGrid`).
-/
namespace QueryLocator.Decimal

/-- The decimal as a rational. -/
def Scaled.value (decimal : Scaled) : ℚ :=
  decimal.digits * 10 ^ decimal.exponent

theorem Scaled.digits_pos_of_value {decimal : Scaled} (h : 0 < decimal.value) : 0 < decimal.digits := by
  apply Nat.pos_of_ne_zero
  intro hzero
  rw [Scaled.value, hzero, Nat.cast_zero, zero_mul] at h
  exact lt_irrefl _ h

/-- A decimal is a point of every finer grid. -/
theorem Scaled.exists_point {decimal : Scaled} {grid : ℤ} (h : grid ≤ decimal.exponent) :
    ∃ n : ℕ, decimal.value = n * 10 ^ grid := by
  obtain ⟨k, hk⟩ : ∃ k : ℕ, decimal.exponent = k + grid := ⟨(decimal.exponent - grid).toNat, by omega⟩
  refine ⟨decimal.digits * 10 ^ k, ?_⟩
  rw [Scaled.value, hk, zpow_add₀ (by norm_num), zpow_natCast]
  push_cast
  ring

theorem ten_zpow_pos (e : ℤ) : (0 : ℚ) < 10 ^ e :=
  zpow_pos (by norm_num) e

/-- A power of ten is a factor above and a factor below the fraction bar. -/
theorem powTen_ratio (e : ℤ) :
    ((Nat.pow 10 e.toNat : ℕ) : ℚ) / (Nat.pow 10 (-e).toNat : ℕ) = 10 ^ e := by
  rcases Int.le_total 0 e with he | he
  · obtain ⟨n, rfl⟩ := Int.eq_ofNat_of_zero_le he
    have hdown : (-(n : ℤ)).toNat = 0 := by omega
    rw [hdown]
    simp
  · obtain ⟨n, rfl⟩ : ∃ n : ℕ, e = -n := ⟨(-e).toNat, by omega⟩
    have hup : (-(n : ℤ)).toNat = 0 := by omega
    rw [hup]
    simp

theorem powTen_cast (n : ℕ) : ((Nat.pow 10 n : ℕ) : ℚ) = 10 ^ (n : ℤ) := by
  rw [Nat.pow_eq, Nat.cast_pow, zpow_natCast]
  rfl

theorem powTen_pos (n : ℕ) : 0 < Nat.pow 10 n :=
  Nat.pow_pos (by decide)

namespace Binary64

/-! ## The interval -/

section Interval
variable (x : Binary64)

theorem roundingInterval_denominator_pos : 0 < x.roundingInterval.denominator :=
  (powTwo_pos (x.exponent - 2)).2

/-- The interval counts in quarters of the last bit. -/
theorem powTwo_quarter :
    (2 : ℚ) ^ x.exponent = (powTwo (x.exponent - 2)).1 / (powTwo (x.exponent - 2)).2 * 4 := by
  rw [powTwo_ratio, zpow_sub₀ (by norm_num)]
  norm_num

theorem roundingInterval_low (h : 0 < x.mantissa) :
    (x.roundingInterval.low : ℚ) / x.roundingInterval.denominator = x.lowEnd := by
  have hbelow : ∀ below : ℕ, below ≤ 2 →
      ((4 * x.mantissa - below : ℕ) : ℚ) = 4 * x.mantissa - below := by
    intro below hle
    rw [Nat.cast_sub (by omega)]
    push_cast
    rfl
  unfold lowEnd
  rw [powTwo_quarter]
  change (((4 * x.mantissa - _) * (powTwo (x.exponent - 2)).1 : ℕ) : ℚ) / _ = _
  rw [Nat.cast_mul, hbelow _ (by split <;> omega)]
  split
  next =>
    push_cast
    change _ / ((powTwo (x.exponent - 2)).2 : ℚ) = _
    ring
  next =>
    push_cast
    change _ / ((powTwo (x.exponent - 2)).2 : ℚ) = _
    ring

theorem roundingInterval_value :
    (x.roundingInterval.value : ℚ) / x.roundingInterval.denominator = x.value := by
  rw [value, powTwo_quarter]
  change ((4 * x.mantissa * (powTwo (x.exponent - 2)).1 : ℕ) : ℚ) /
    ((powTwo (x.exponent - 2)).2 : ℚ) = _
  push_cast
  ring

theorem roundingInterval_high :
    (x.roundingInterval.high : ℚ) / x.roundingInterval.denominator = x.highEnd := by
  rw [highEnd, powTwo_quarter]
  change (((4 * x.mantissa + 2) * (powTwo (x.exponent - 2)).1 : ℕ) : ℚ) /
    ((powTwo (x.exponent - 2)).2 : ℚ) = _
  push_cast
  ring

/-- An end of the interval and a decimal are compared over their common denominator. -/
theorem exists_common_denominator (decimal : Scaled) :
    ∃ common : ℚ, 0 < common ∧
      (∀ n : ℕ, (n : ℚ) / x.roundingInterval.denominator * common =
        (n * Nat.pow 10 (-decimal.exponent).toNat : ℕ)) ∧
      decimal.value * common = (decimal.digits * Nat.pow 10 decimal.exponent.toNat *
        x.roundingInterval.denominator : ℕ) := by
  have hden : (0 : ℚ) < x.roundingInterval.denominator := by
    exact_mod_cast x.roundingInterval_denominator_pos
  have hratio := powTen_ratio decimal.exponent
  have hdown : (0 : ℚ) < (Nat.pow 10 (-decimal.exponent).toNat : ℕ) := by
    exact_mod_cast powTen_pos _
  refine ⟨_, mul_pos hden hdown, fun n => ?_, ?_⟩
  · push_cast
    field_simp
  · rw [Scaled.value, ← hratio]
    push_cast
    field_simp

end Interval

/-- A decimal lies in the interval of a number when it rounds to the number. -/
theorem holds_iff {x : Binary64} (h : 0 < x.mantissa) (decimal : Scaled) :
    x.roundingInterval.holds decimal = true ↔ x.Covers decimal.value := by
  have hlow := x.roundingInterval_low h
  have hhigh := x.roundingInterval_high
  obtain ⟨common, hpos, hend, hpoint⟩ := x.exists_common_denominator decimal
  have hle_low : x.lowEnd ≤ decimal.value ↔ x.roundingInterval.low *
      Nat.pow 10 (-decimal.exponent).toNat ≤
      decimal.digits * Nat.pow 10 decimal.exponent.toNat * x.roundingInterval.denominator := by
    rw [← hlow, ← mul_le_mul_iff_left₀ hpos, hend, hpoint, Nat.cast_le]
  have hle_high : decimal.value ≤ x.highEnd ↔
      decimal.digits * Nat.pow 10 decimal.exponent.toNat * x.roundingInterval.denominator ≤
      x.roundingInterval.high * Nat.pow 10 (-decimal.exponent).toNat := by
    rw [← hhigh, ← mul_le_mul_iff_left₀ hpos, hend, hpoint, Nat.cast_le]
  have hlt_low : x.lowEnd < decimal.value ↔ x.roundingInterval.low *
      Nat.pow 10 (-decimal.exponent).toNat <
      decimal.digits * Nat.pow 10 decimal.exponent.toNat * x.roundingInterval.denominator := by
    rw [← hlow, ← mul_lt_mul_iff_left₀ hpos, hend, hpoint, Nat.cast_lt]
  have hlt_high : decimal.value < x.highEnd ↔
      decimal.digits * Nat.pow 10 decimal.exponent.toNat * x.roundingInterval.denominator <
      x.roundingInterval.high * Nat.pow 10 (-decimal.exponent).toNat := by
    rw [← hhigh, ← mul_lt_mul_iff_left₀ hpos, hend, hpoint, Nat.cast_lt]
  have hclosed : x.roundingInterval.closed = (x.mantissa % 2 == 0) := rfl
  unfold RoundingInterval.holds Covers
  dsimp only
  rw [hclosed]
  by_cases heven : x.mantissa % 2 = 0
  · rw [if_pos heven, if_pos (by simpa using heven), hle_low, hle_high]
    simp
  · rw [if_neg heven, if_neg (by simpa using heven), hlt_low, hlt_high]
    simp

/-! ## Grids -/

section Grids
variable {x : Binary64} {exponent : ℤ} {decimal : Scaled}

/-- What is taken from a grid is a point of the grid that rounds to the number. -/
theorem covers_of_onGrid (hx : 0 < x.mantissa)
    (h : x.roundingInterval.onGrid exponent = some decimal) :
    decimal.exponent = exponent ∧ x.Covers decimal.value := by
  unfold RoundingInterval.onGrid at h
  dsimp only at h
  split at h
  next hlower hupper =>
    obtain rfl := Option.some.inj h
    split
    · exact ⟨rfl, (holds_iff hx _).mp hlower⟩
    · exact ⟨rfl, (holds_iff hx _).mp hupper⟩
  next hlower _ =>
    obtain rfl := Option.some.inj h
    exact ⟨rfl, (holds_iff hx _).mp hlower⟩
  next _ hupper =>
    obtain rfl := Option.some.inj h
    exact ⟨rfl, (holds_iff hx _).mp hupper⟩
  next => cases h

/-- The number lies between two neighbouring points of a grid. -/
theorem value_between_grid (x : Binary64) (exponent : ℤ) :
    ∃ point : ℕ, point = x.roundingInterval.value * Nat.pow 10 (-exponent).toNat /
        (x.roundingInterval.denominator * Nat.pow 10 exponent.toNat) ∧
      (point : ℚ) * 10 ^ exponent ≤ x.value ∧ x.value < (point + 1) * 10 ^ exponent := by
  have hvalue := x.roundingInterval_value
  have hratio := powTen_ratio exponent
  have hden := x.roundingInterval_denominator_pos
  have hup := powTen_pos exponent.toNat
  have hdown := powTen_pos (-exponent).toNat
  generalize x.roundingInterval.value = num at *
  generalize x.roundingInterval.denominator = den at *
  generalize Nat.pow 10 exponent.toNat = up at *
  generalize Nat.pow 10 (-exponent).toNat = down at *
  have hden' : (0 : ℚ) < den := by exact_mod_cast hden
  have hdown' : (0 : ℚ) < down := by exact_mod_cast hdown
  have hunit : 0 < den * up := Nat.mul_pos hden hup
  -- over the common denominator the point is a quotient of natural numbers
  have hgrid : ∀ q : ℚ, q * 10 ^ exponent * (den * down) = q * (den * up : ℕ) := by
    intro q
    rw [← hratio]
    push_cast
    field_simp
  have hnumber : x.value * (den * down) = (num * down : ℕ) := by
    rw [← hvalue]
    push_cast
    field_simp
  have hscale := mul_pos hden' hdown'
  refine ⟨_, rfl, ?_, ?_⟩
  · rw [← mul_le_mul_iff_left₀ hscale, hgrid, hnumber]
    exact_mod_cast Nat.div_mul_le_self (num * down) (den * up)
  · rw [← mul_lt_mul_iff_left₀ hscale, hgrid, hnumber]
    have hlt := Nat.lt_div_mul_add (a := num * down) hunit
    have hlt' : num * down < (num * down / (den * up) + 1) * (den * up) := by
      rwa [Nat.add_mul, Nat.one_mul]
    exact_mod_cast hlt'

/-- A grid with a point that rounds to the number is not passed over. -/
theorem isSome_onGrid (hx : 0 < x.mantissa) {n : ℕ} (h : x.Covers (n * 10 ^ exponent)) :
    (x.roundingInterval.onGrid exponent).isSome = true := by
  obtain ⟨point, hpoint, hlow, hhigh⟩ := value_between_grid x exponent
  have hpos := ten_zpow_pos exponent
  have hnext : ((point + 1 : ℕ) : ℚ) = point + 1 := Nat.cast_succ point
  have hnear : x.Covers (Scaled.mk point exponent).value ∨
      x.Covers (Scaled.mk (point + 1) exponent).value := by
    unfold Scaled.value
    dsimp only
    by_cases hn : n ≤ point
    · left
      have hn' : (n : ℚ) ≤ point := by exact_mod_cast hn
      exact h.of_between x.covers_value (mul_le_mul_of_nonneg_right hn' (le_of_lt hpos)) hlow
    · right
      have hn' : (point : ℚ) + 1 ≤ n := by exact_mod_cast Nat.lt_of_not_le hn
      rw [hnext]
      exact x.covers_value.of_between h (le_of_lt hhigh)
        (mul_le_mul_of_nonneg_right hn' (le_of_lt hpos))
  rw [← holds_iff hx, ← holds_iff hx] at hnear
  unfold RoundingInterval.onGrid
  dsimp only
  rw [← hpoint]
  rcases hnear with hnear | hnear
  · rw [hnear]
    split <;> simp_all
  · rw [hnear]
    split <;> simp_all

/-- The search ends no later than on a grid with a point that rounds to the number. -/
theorem exists_of_search (hx : 0 < x.mantissa) {n steps : ℕ} {grids : ℕ} (hsteps : steps < grids)
    (h : x.Covers (n * 10 ^ (exponent - steps))) :
    ∃ decimal, x.roundingInterval.search grids exponent = some decimal ∧
      exponent - steps ≤ decimal.exponent ∧ x.Covers decimal.value := by
  induction grids generalizing exponent steps with
  | zero => omega
  | succ grids ih =>
    rw [RoundingInterval.search]
    cases hgrid : x.roundingInterval.onGrid exponent with
    | some decimal =>
      obtain ⟨hexponent, hcovers⟩ := covers_of_onGrid hx hgrid
      exact ⟨decimal, rfl, by omega, hcovers⟩
    | none =>
      -- a grid that is passed over is not the one with the point
      cases steps with
      | zero =>
        rw [Nat.cast_zero, sub_zero] at h
        have hsome := isSome_onGrid hx h
        rw [hgrid] at hsome
        cases hsome
      | succ steps =>
        have hnext : exponent - (steps + 1 : ℕ) = exponent - 1 - steps := by omega
        rw [hnext] at h ⊢
        exact ih (by omega) h

/-- What the search finds rounds to the number. -/
theorem covers_of_search (hx : 0 < x.mantissa) {grids : ℕ}
    (h : x.roundingInterval.search grids exponent = some decimal) : x.Covers decimal.value := by
  induction grids generalizing exponent with
  | zero => cases h
  | succ grids ih =>
    rw [RoundingInterval.search] at h
    split at h
    next hgrid =>
      obtain rfl := Option.some.inj h
      exact (covers_of_onGrid hx hgrid).2
    next => exact ih h

end Grids

/-! ## The shortest decimal -/

theorem value_trimZeros (count : ℕ) (decimal : Scaled) :
    (trimZeros count decimal).value = decimal.value := by
  induction count generalizing decimal with
  | zero => rfl
  | succ count ih =>
    rw [trimZeros]
    split
    next h =>
      have hten : (10 : ℚ) ^ (decimal.exponent + 1) = 10 ^ decimal.exponent * 10 :=
        zpow_add_one₀ (by norm_num) _
      have hdigits : (decimal.digits : ℚ) = (decimal.digits / 10 : ℕ) * 10 := by
        exact_mod_cast (Nat.div_mul_cancel (Nat.dvd_of_mod_eq_zero h.2)).symm
      rw [ih, Scaled.value, Scaled.value, hten, hdigits]
      ring
    next => rfl

theorem lowEnd_pos {x : Binary64} (h : 0 < x.mantissa) : 0 < x.lowEnd := by
  have hmantissa : (1 : ℚ) ≤ x.mantissa := by exact_mod_cast h
  unfold lowEnd
  refine mul_pos ?_ (two_zpow_pos _)
  split <;> linarith

/-- Only zero itself has no digits. -/
theorem shortest_eq_zero_or_pos (x : Binary64) : x.shortest = ⟨0, 0⟩ ∨ 0 < x.shortest.digits := by
  unfold shortest
  split
  next => exact Or.inl rfl
  next hzero =>
    have hx : 0 < x.mantissa := Nat.pos_of_ne_zero (by simpa [isZero] using hzero)
    cases hsearch : x.roundingInterval.search 17 x.leadingExponent with
    | none => exact Or.inl rfl
    | some decimal =>
      have hcovers := covers_of_search hx hsearch
      right
      apply Scaled.digits_pos_of_value
      rw [Option.getD_some, value_trimZeros]
      exact lt_of_lt_of_le (lowEnd_pos hx) hcovers.between.1

/-- The first of the digits of an integer stands for the power of ten in front of it. -/
theorem length_digitsOf {n : ℕ} (hn : 0 < n) :
    ∃ more, (digitsOf n).length = more + 1 ∧ 10 ^ more ≤ n ∧ n + 1 ≤ 10 ^ (more + 1) := by
  have hpos : 0 < (digitsOf n).length := List.length_pos_iff.mpr Nat.toDigits_ne_nil
  obtain ⟨more, hmore⟩ : ∃ more, (digitsOf n).length = more + 1 :=
    ⟨(digitsOf n).length - 1, by omega⟩
  refine ⟨more, hmore, ?_, ?_⟩
  · rcases Nat.eq_zero_or_pos more with rfl | hsome
    · exact hn
    · have hlonger : ¬(digitsOf n).length ≤ more := by omega
      exact Nat.le_of_not_lt (mt (Nat.length_toDigits_le_iff (by decide) hsome).mpr hlonger)
  · rw [← hmore]
    exact (Nat.length_toDigits_le_iff (by decide) hpos).mp (Nat.le_refl _)

/-- The first digit is found among the digits of the number in units of `10 ^ -324`. -/
theorem exists_leadingExponent_eq (x : Binary64) :
    ∃ scale : ℕ, (scale : ℚ) = 10 ^ (324 : ℤ) ∧
      x.leadingExponent = (digitsOf (x.fraction.1 * scale / x.fraction.2)).length - 325 := by
  refine ⟨_, ?_, rfl⟩
  -- behind a name the power is not evaluated
  generalize hplaces : 324 = places
  rw [powTen_cast, ← hplaces, Nat.cast_ofNat]

/-- The first digit of a number stands for the power of ten that `leadingExponent` gives. -/
theorem leadingExponent_bounds {x : Binary64} (h : (10 : ℚ) ^ (-324 : ℤ) ≤ x.value) :
    (10 : ℚ) ^ x.leadingExponent ≤ x.value ∧ x.value < 10 ^ (x.leadingExponent + 1) := by
  have hden : (0 : ℚ) < x.fraction.2 := by exact_mod_cast x.fraction_pos
  have hratio := x.fraction_ratio
  obtain ⟨scale, hscale, hleading⟩ := x.exists_leadingExponent_eq
  obtain ⟨n, hn⟩ : ∃ n, n = x.fraction.1 * scale / x.fraction.2 := ⟨_, rfl⟩
  rw [← hn] at hleading
  have hpos : (0 : ℚ) < scale := by
    rw [hscale]
    exact ten_zpow_pos 324
  have hshift : ∀ e : ℤ, (10 : ℚ) ^ (e - 324) * scale = 10 ^ e := by
    intro e
    rw [hscale, ← zpow_add₀ (by norm_num), sub_add_cancel]
  have hscaled : x.value * scale = (x.fraction.1 * scale : ℕ) / x.fraction.2 := by
    rw [← hratio]
    push_cast
    ring
  have hlow : (n : ℚ) ≤ x.value * scale := by
    rw [hscaled, hn]
    exact Nat.cast_div_le
  have hhigh : x.value * scale < n + 1 := by
    rw [hscaled, div_lt_iff₀ hden, hn]
    have hlt := Nat.lt_div_mul_add (a := x.fraction.1 * scale) x.fraction_pos
    exact_mod_cast (by rwa [Nat.add_mul, Nat.one_mul] : x.fraction.1 * scale <
      (x.fraction.1 * scale / x.fraction.2 + 1) * x.fraction.2)
  have hn_pos : 0 < n := by
    have hone := mul_le_mul_of_nonneg_right h (le_of_lt hpos)
    have hleast := hshift 0
    rw [zero_sub, zpow_zero] at hleast
    rw [hleast] at hone
    have : (0 : ℚ) < n := by linarith
    exact_mod_cast this
  obtain ⟨more, hlength, hlength_low, hlength_high⟩ := length_digitsOf hn_pos
  rw [hleading, hlength]
  constructor
  · rw [← mul_le_mul_iff_left₀ hpos]
    have hexponent : ((more + 1 : ℕ) : ℤ) - 325 = more - 324 := by omega
    rw [hexponent, hshift, zpow_natCast]
    exact le_trans (by exact_mod_cast hlength_low) hlow
  · rw [← mul_lt_mul_iff_left₀ hpos]
    have hexponent : ((more + 1 : ℕ) : ℤ) - 325 + 1 = (more + 1 : ℕ) - 324 := by omega
    rw [hexponent, hshift, zpow_natCast]
    exact lt_of_lt_of_le hhigh (by exact_mod_cast hlength_high)

/-! ## Few digits -/

section Few
variable {x : Binary64}

theorem value_ge_of_normal (h : x.Normal) : Nat.pow 2 52 * 2 ^ x.exponent ≤ x.value := by
  have hmantissa : (Nat.pow 2 52 : ℚ) ≤ x.mantissa := by exact_mod_cast h.low
  exact mul_le_mul_of_nonneg_right hmantissa (le_of_lt (two_zpow_pos x.exponent))

/-- Numbers with all of their bits are not below `10 ^ -324`. -/
theorem least_le_of_normal (h : x.Normal) : (10 : ℚ) ^ (-324 : ℤ) ≤ x.value := by
  have hpowers : (2 : ℚ) ^ (1022 : ℤ) ≤ 10 ^ (324 : ℤ) := by
    obtain ⟨bits, hbits⟩ : ∃ bits : ℕ, bits = 1022 := ⟨_, rfl⟩
    obtain ⟨places, hplaces⟩ : ∃ places : ℕ, places = 324 := ⟨_, rfl⟩
    have hpowers : 2 ^ bits ≤ 10 ^ places := by
      rw [hbits, hplaces]
      decide +kernel
    have hbits : (1022 : ℤ) = bits := by omega
    have hplaces : (324 : ℤ) = places := by omega
    rw [hbits, hplaces, zpow_natCast, zpow_natCast]
    exact_mod_cast hpowers
  calc (10 : ℚ) ^ (-324 : ℤ) = (10 ^ (324 : ℤ))⁻¹ := zpow_neg 10 324
    _ ≤ (2 ^ (1022 : ℤ))⁻¹ := inv_anti₀ (two_zpow_pos 1022) hpowers
    _ = 2 ^ (52 + minExponent) := (zpow_neg 2 1022).symm
    _ = Nat.pow 2 52 * 2 ^ minExponent := (natPow_mul_zpow 52 minExponent).symm
    _ ≤ Nat.pow 2 52 * 2 ^ x.exponent :=
      mul_le_mul_of_nonneg_left (zpow_le_zpow_right₀ (by norm_num) h.exponent) (Nat.cast_nonneg _)
    _ ≤ x.value := value_ge_of_normal h

/-- The points of a grid of fifteen digits are further apart than the ends of the interval. -/
theorem unit_lt_of_normal (hnormal : x.Normal) {grid : ℤ} (hgrid : x.leadingExponent - 14 ≤ grid) :
    (2 : ℚ) ^ x.exponent < 10 ^ grid := by
  obtain ⟨-, hleading⟩ := leadingExponent_bounds (least_le_of_normal hnormal)
  have hunit := value_ge_of_normal hnormal
  have hleast : (10 : ℚ) ^ (x.leadingExponent - 14) ≤ 10 ^ grid :=
    zpow_le_zpow_right₀ (by norm_num) hgrid
  have hsplit : (10 : ℚ) ^ (x.leadingExponent + 1) = 10 ^ (x.leadingExponent - 14) * 10 ^ 15 := by
    rw [zpow_sub₀ (by norm_num), zpow_add_one₀ (by norm_num)]
    norm_num
    ring
  have hpos := ten_zpow_pos (x.leadingExponent - 14)
  norm_num at hunit hsplit
  linarith

/-- Of two points of a grid of fifteen digits at most one rounds to a number. -/
theorem eq_of_covers_grid (hnormal : x.Normal) {grid : ℤ} (hgrid : x.leadingExponent - 14 ≤ grid)
    {m n : ℕ} (hm : x.Covers (m * 10 ^ grid)) (hn : x.Covers (n * 10 ^ grid)) : m = n := by
  have hwidth := unit_lt_of_normal hnormal hgrid
  have hpos := ten_zpow_pos grid
  have hnear := hm.near
  have hnear' := hn.near
  rcases Nat.lt_trichotomy m n with hlt | heq | hlt
  · have hstep : (m : ℚ) + 1 ≤ n := by exact_mod_cast hlt
    have := mul_le_mul_of_nonneg_right hstep (le_of_lt hpos)
    linarith
  · exact heq
  · have hstep : (n : ℚ) + 1 ≤ m := by exact_mod_cast hlt
    have := mul_le_mul_of_nonneg_right hstep (le_of_lt hpos)
    linarith

variable {digits : ℕ} {exponent : ℤ} (hnormal : x.Normal) (hdigits : digits < Nat.pow 10 15)
  (h : x.Covers (digits * 10 ^ exponent))
include hnormal hdigits h

/-- Fifteen digits reach as far down as the first digit of the number allows. -/
theorem leadingExponent_le_of_covers : x.leadingExponent - 14 ≤ exponent := by
  obtain ⟨hleading, -⟩ := leadingExponent_bounds (least_le_of_normal hnormal)
  have hunit := value_ge_of_normal hnormal
  apply Classical.byContradiction
  intro hless
  have hgrid : (10 : ℚ) ^ exponent ≤ 10 ^ (x.leadingExponent - 15) :=
    zpow_le_zpow_right₀ (by norm_num) (by omega)
  have hsplit : (10 : ℚ) ^ x.leadingExponent = 10 ^ (x.leadingExponent - 15) * 10 ^ 15 := by
    rw [zpow_sub₀ (by norm_num)]
    norm_num
  have hmost : (digits : ℚ) ≤ 10 ^ 15 - 1 := by
    have : (digits : ℚ) + 1 ≤ 10 ^ 15 := by exact_mod_cast hdigits
    linarith
  have hdecimal : (digits : ℚ) * 10 ^ exponent ≤ (10 ^ 15 - 1) * 10 ^ (x.leadingExponent - 15) :=
    mul_le_mul hmost hgrid (le_of_lt (ten_zpow_pos _)) (by norm_num)
  have hnear := h.near.1
  have hpos := ten_zpow_pos (x.leadingExponent - 15)
  norm_num at hunit hdecimal hsplit
  linarith

/-- **A decimal with at most fifteen digits that rounds to a number is the shortest one of the
number.** -/
theorem value_shortest_of_covers : x.shortest.value = digits * 10 ^ exponent := by
  have hx : 0 < x.mantissa := Nat.lt_of_lt_of_le (by decide) hnormal.low
  have hnonzero : x.isZero = false := by simpa [isZero] using Nat.ne_of_gt hx
  have hexponent := leadingExponent_le_of_covers hnormal hdigits h
  -- the decimal lies on its own grid, or on the first one of the search
  obtain ⟨grid, hgrid⟩ : ∃ grid, grid = min exponent x.leadingExponent := ⟨_, rfl⟩
  have hsteps : x.leadingExponent - (x.leadingExponent - grid).toNat = grid := by omega
  have hcoarse : grid ≤ exponent := by omega
  obtain ⟨n, hn⟩ : ∃ n : ℕ, (digits : ℚ) * 10 ^ exponent = n * 10 ^ grid :=
    @Scaled.exists_point ⟨digits, exponent⟩ grid hcoarse
  have hcovers : x.Covers (n * 10 ^ (x.leadingExponent - (x.leadingExponent - grid).toNat)) := by
    rwa [hsteps, ← hn]
  obtain ⟨decimal, hsearch, hfound, hdecimal⟩ :=
    exists_of_search hx (show (x.leadingExponent - grid).toNat < 17 by omega) hcovers
  have hshortest : x.shortest.value = decimal.value := by
    rw [shortest, hnonzero, if_neg Bool.false_ne_true, hsearch, Option.getD_some, value_trimZeros]
  rw [hsteps] at hfound
  obtain ⟨m, hm⟩ := Scaled.exists_point hfound
  rw [hm] at hdecimal
  rw [hn] at h
  rw [hshortest, hm, hn, eq_of_covers_grid hnormal (by omega) hdecimal h]

end Few
end Binary64
end QueryLocator.Decimal
