import Mathlib.Algebra.Order.Field.Power
import Mathlib.Data.Rat.Cast.Order
import Mathlib.Tactic.FieldSimp
import Mathlib.Tactic.Linarith
import Mathlib.Tactic.NormNum
import Mathlib.Tactic.Positivity
import Mathlib.Tactic.Ring
import QueryLocator.Json.Reader

/-! # What rounds to a floating point number

A floating point number stands for the rationals that round to it: those that are nearer to it than to
its neighbours, and those half way to a neighbour where its mantissa is even.  Rounding a fraction gives
a number that covers it (`covers_of_round`), and gives a natural number of 53 bits itself
(`value_of_ofNat`).  A number that is read from few digits and a small power of ten is therefore rounded
only once, in the one multiplication or division that puts the two together (`covers_of_scale`).
-/
namespace QueryLocator.Decimal

namespace Binary64

/-- The number as a rational. -/
def value (x : Binary64) : ℚ :=
  x.mantissa * 2 ^ x.exponent

/-! ## Powers of two as fractions -/

theorem two_zpow_pos (e : ℤ) : (0 : ℚ) < 2 ^ e :=
  zpow_pos (by norm_num) e

theorem powTwo_pos (e : ℤ) : 0 < (powTwo e).1 ∧ 0 < (powTwo e).2 := by
  have hpow : ∀ n, 0 < Nat.pow 2 n := fun n => Nat.pow_pos (by decide)
  unfold powTwo
  split
  · exact ⟨hpow _, Nat.one_pos⟩
  · exact ⟨Nat.one_pos, hpow _⟩

theorem powTwo_ratio (e : ℤ) : ((powTwo e).1 : ℚ) / (powTwo e).2 = 2 ^ e := by
  unfold powTwo
  split
  next he =>
    obtain ⟨n, rfl⟩ := Int.eq_ofNat_of_zero_le he
    simp
  next he =>
    obtain ⟨n, hn⟩ : ∃ n : ℕ, -e = n := ⟨(-e).toNat, by omega⟩
    obtain rfl : e = -n := by omega
    simp

theorem natPow_mul_zpow (n : ℕ) (e : ℤ) : ((Nat.pow 2 n : ℕ) : ℚ) * 2 ^ e = 2 ^ (n + e) := by
  rw [Nat.pow_eq, Nat.cast_pow, zpow_add₀ (by norm_num), zpow_natCast]
  rfl

theorem fraction_pos (x : Binary64) : 0 < x.fraction.2 :=
  (powTwo_pos x.exponent).2

theorem fraction_ratio (x : Binary64) : (x.fraction.1 : ℚ) / x.fraction.2 = x.value := by
  have hratio := powTwo_ratio x.exponent
  change ((x.mantissa * (powTwo x.exponent).1 : ℕ) : ℚ) / (powTwo x.exponent).2 = _
  rw [value, ← hratio]
  push_cast
  ring

/-- The logarithm of a fraction is the exponent of the power of two in front of it. -/
theorem logTwo_bounds {num den : ℕ} (hnum : 0 < num) (hden : 0 < den) :
    (2 : ℚ) ^ logTwo num den ≤ num / den ∧ (num : ℚ) / den < 2 ^ (logTwo num den + 1) := by
  have hden' : (0 : ℚ) < den := by exact_mod_cast hden
  -- both parts of the fraction lie between two powers of two
  have hlow : (2 : ℚ) ^ (num.log2 : ℤ) ≤ num := by
    exact_mod_cast Nat.log2_self_le (Nat.ne_of_gt hnum)
  have hhigh : (num : ℚ) < 2 ^ ((num.log2 : ℤ) + 1) := by
    exact_mod_cast Nat.lt_log2_self (n := num)
  have hlow' : (2 : ℚ) ^ (den.log2 : ℤ) ≤ den := by
    exact_mod_cast Nat.log2_self_le (Nat.ne_of_gt hden)
  have hhigh' : (den : ℚ) < 2 ^ ((den.log2 : ℤ) + 1) := by
    exact_mod_cast Nat.lt_log2_self (n := den)
  have hstep : ∀ e : ℤ, (2 : ℚ) ^ (e + 1) = 2 ^ e * 2 := fun e => zpow_add_one₀ (by norm_num) e
  obtain ⟨up, down, hpow⟩ : ∃ up down, powTwo ((num.log2 : ℤ) - den.log2) = (up, down) := ⟨_, _, rfl⟩
  have hdown := (powTwo_pos ((num.log2 : ℤ) - den.log2)).2
  have hratio := powTwo_ratio ((num.log2 : ℤ) - den.log2)
  rw [hpow] at hdown hratio
  have hdown' : (0 : ℚ) < down := by exact_mod_cast hdown
  have hsub : (2 : ℚ) ^ ((num.log2 : ℤ) - den.log2) * 2 ^ (den.log2 : ℤ) = 2 ^ (num.log2 : ℤ) := by
    rw [← zpow_add₀ (by norm_num)]
    congr 1
    omega
  have hpos := two_zpow_pos ((num.log2 : ℤ) - den.log2)
  have hcompare : den * up ≤ num * down ↔
      (2 : ℚ) ^ ((num.log2 : ℤ) - den.log2) ≤ (num : ℚ) / den := by
    rw [← hratio, div_le_div_iff₀ hdown' hden', ← Nat.cast_le (α := ℚ)]
    push_cast
    constructor <;> intro h <;> linarith
  unfold logTwo
  simp only [hpow]
  rw [hstep] at hhigh hhigh'
  split
  next h =>
    refine ⟨hcompare.mp h, ?_⟩
    rw [hstep, div_lt_iff₀ hden']
    calc (num : ℚ) < 2 ^ (num.log2 : ℤ) * 2 := hhigh
      _ = 2 ^ ((num.log2 : ℤ) - den.log2) * 2 * 2 ^ (den.log2 : ℤ) := by rw [← hsub]; ring
      _ ≤ 2 ^ ((num.log2 : ℤ) - den.log2) * 2 * den :=
        mul_le_mul_of_nonneg_left hlow' (by positivity)
  next h =>
    refine ⟨?_, ?_⟩
    · rw [le_div_iff₀ hden', zpow_sub_one₀ (by norm_num)]
      calc (2 : ℚ) ^ ((num.log2 : ℤ) - den.log2) * 2⁻¹ * den
          ≤ 2 ^ ((num.log2 : ℤ) - den.log2) * 2⁻¹ * (2 ^ (den.log2 : ℤ) * 2) :=
            mul_le_mul_of_nonneg_left (le_of_lt hhigh') (by positivity)
        _ = 2 ^ (num.log2 : ℤ) := by rw [← hsub]; ring
        _ ≤ num := hlow
    · rw [sub_add_cancel]
      exact not_le.mp fun hle => h (hcompare.mpr hle)

/-! ## Rounding to an integer -/

/-- An integer that a rational rounds to, where a half goes to the even one. -/
structure Nearest (q : ℚ) (n : ℕ) : Prop where
  low : n - 1 / 2 ≤ q
  high : q ≤ n + 1 / 2
  tie : q = n - 1 / 2 ∨ q = n + 1 / 2 → n % 2 = 0

theorem nearest_roundHalfEven (num : ℕ) {den : ℕ} (hden : 0 < den) :
    Nearest (num / den) (roundHalfEven num den) := by
  have hden' : (0 : ℚ) < den := by exact_mod_cast hden
  have hsplit : (num : ℚ) = den * (num / den : ℕ) + (num % den : ℕ) := by
    exact_mod_cast (Nat.div_add_mod num den).symm
  have hdivide : (num : ℚ) / den = (num / den : ℕ) + (num % den : ℕ) / (den : ℚ) := by
    rw [div_eq_iff (ne_of_gt hden'), add_mul, div_mul_cancel₀ _ (ne_of_gt hden'), mul_comm]
    exact hsplit
  have hcast : ((num / den + 1 : ℕ) : ℚ) = (num / den : ℕ) + 1 := Nat.cast_succ _
  have hfront : (0 : ℚ) ≤ (num % den : ℕ) / (den : ℚ) := by positivity
  have hrest : ((num % den : ℕ) : ℚ) / den < 1 := by
    rw [div_lt_one hden']
    exact_mod_cast Nat.mod_lt num hden
  -- how twice the remainder compares with the denominator says on which side of one half it is
  have hless : 2 * (num % den) < den ↔ ((num % den : ℕ) : ℚ) / den < 1 / 2 := by
    rw [div_lt_div_iff₀ hden' (by norm_num), ← Nat.cast_lt (α := ℚ)]
    push_cast
    constructor <;> intro h <;> linarith
  have hmore : den < 2 * (num % den) ↔ 1 / 2 < ((num % den : ℕ) : ℚ) / den := by
    rw [div_lt_div_iff₀ (by norm_num) hden', ← Nat.cast_lt (α := ℚ)]
    push_cast
    constructor <;> intro h <;> linarith
  generalize ((num % den : ℕ) : ℚ) / den = part at *
  rw [hdivide]
  unfold roundHalfEven
  dsimp only
  split
  next h =>
    have h := hless.mp h
    exact ⟨by linarith, by linarith, by rintro (h | h) <;> exfalso <;> linarith⟩
  next h =>
    have h := mt hless.mpr h
    split
    next h' =>
      have h' := hmore.mp h'
      exact ⟨by linarith, by linarith, by rintro (h | h) <;> exfalso <;> linarith⟩
    next h' =>
      have h' := mt hmore.mpr h'
      obtain rfl : part = 1 / 2 := le_antisymm (not_lt.mp h') (not_lt.mp h)
      split
      next heven => exact ⟨by linarith, by linarith, fun _ => heven⟩
      next hodd => exact ⟨by linarith, by linarith, fun _ => by omega⟩

/-! ## Rounding to a floating point number -/

section Ends
variable (x : Binary64)

/-- The smallest rational that may round to a number, half way to the neighbour below it.  Below a power
of two the neighbour is only half as far away. -/
def lowEnd : ℚ :=
  (x.mantissa - if x.mantissa = Nat.pow 2 52 ∧ x.exponent ≠ minExponent then 1 / 4 else 1 / 2) *
    2 ^ x.exponent

/-- The largest rational that may round to a number, half way to the neighbour above it. -/
def highEnd : ℚ :=
  (x.mantissa + 1 / 2) * 2 ^ x.exponent

/-- The rationals that round to a number. -/
def Covers (q : ℚ) : Prop :=
  if x.mantissa % 2 = 0 then x.lowEnd ≤ q ∧ q ≤ x.highEnd else x.lowEnd < q ∧ q < x.highEnd

/-- A number of the format with all of its 53 bits. -/
structure Normal : Prop where
  exponent : minExponent ≤ x.exponent
  low : Nat.pow 2 52 ≤ x.mantissa
  high : x.mantissa < Nat.pow 2 53

end Ends

theorem Covers.between {x : Binary64} {q : ℚ} (h : x.Covers q) : x.lowEnd ≤ q ∧ q ≤ x.highEnd := by
  unfold Covers at h
  split at h
  · exact h
  · exact ⟨le_of_lt h.1, le_of_lt h.2⟩

/-- What lies between two rationals that round to a number rounds to it. -/
theorem Covers.of_between {x : Binary64} {a b q : ℚ} (ha : x.Covers a) (hb : x.Covers b)
    (haq : a ≤ q) (hqb : q ≤ b) : x.Covers q := by
  unfold Covers at *
  split at ha
  next heven =>
    rw [if_pos heven] at hb ⊢
    exact ⟨le_trans ha.1 haq, le_trans hqb hb.2⟩
  next hodd =>
    rw [if_neg hodd] at hb ⊢
    exact ⟨lt_of_lt_of_le ha.1 haq, lt_of_le_of_lt hqb hb.2⟩

theorem lowEnd_lt_value (x : Binary64) : x.lowEnd < x.value := by
  have hpos := two_zpow_pos x.exponent
  unfold lowEnd value
  refine mul_lt_mul_of_pos_right ?_ hpos
  split <;> linarith

theorem value_lt_highEnd (x : Binary64) : x.value < x.highEnd := by
  have hpos := two_zpow_pos x.exponent
  unfold highEnd value
  exact mul_lt_mul_of_pos_right (by linarith) hpos

theorem covers_value (x : Binary64) : x.Covers x.value := by
  have hlow := x.lowEnd_lt_value
  have hhigh := x.value_lt_highEnd
  unfold Covers
  split
  · exact ⟨le_of_lt hlow, le_of_lt hhigh⟩
  · exact ⟨hlow, hhigh⟩

/-- What rounds to a number is not further from it than half the distance of two neighbours. -/
theorem Covers.near {x : Binary64} {q : ℚ} (h : x.Covers q) :
    x.value - 2 ^ x.exponent / 2 ≤ q ∧ q ≤ x.value + 2 ^ x.exponent / 2 := by
  have hpos := two_zpow_pos x.exponent
  obtain ⟨hlow, hhigh⟩ := h.between
  have hend : x.value - 2 ^ x.exponent / 2 ≤ x.lowEnd := by
    unfold lowEnd value
    split <;> linarith
  have hend' : x.highEnd = x.value + 2 ^ x.exponent / 2 := by
    unfold highEnd value
    ring
  exact ⟨le_trans hend hlow, hend' ▸ hhigh⟩

/-- A mantissa that is rounded up to the next power of two is written with the next exponent. -/
theorem covers_of_nearest {q : ℚ} {n : ℕ} {e : ℤ} (h : Nearest q n) (he : minExponent ≤ e)
    (hlow : e ≠ minExponent → Nat.pow 2 52 ≤ q) (hhigh : q < Nat.pow 2 53) :
    (if n = Nat.pow 2 53 then Binary64.mk (Nat.pow 2 52) (e + 1) else ⟨n, e⟩).Covers
      (q * 2 ^ e) := by
  have hpos := two_zpow_pos e
  have hbit : (Nat.pow 2 53 : ℚ) = 2 * Nat.pow 2 52 := by norm_num
  have hmin : e + 1 ≠ minExponent := by omega
  split
  next hn =>
    have hlow' := h.low
    have hstep : (2 : ℚ) ^ (e + 1) = 2 ^ e * 2 := zpow_add_one₀ (by norm_num) e
    subst hn
    have heven : Nat.pow 2 52 % 2 = 0 := by decide
    rw [Covers, if_pos heven, lowEnd, highEnd, if_pos ⟨rfl, hmin⟩, hstep]
    rw [hbit] at hlow' hhigh
    constructor <;> nlinarith
  next hn =>
    have hlow' : n - (if n = Nat.pow 2 52 ∧ e ≠ minExponent then 1 / 4 else 1 / 2 : ℚ) ≤ q := by
      split
      next hborder =>
        have := hlow hborder.2
        rw [← hborder.1] at this
        linarith
      next => exact h.low
    unfold Covers lowEnd highEnd
    dsimp only
    split
    next heven =>
      exact ⟨mul_le_mul_of_nonneg_right hlow' (le_of_lt hpos),
        mul_le_mul_of_nonneg_right h.high (le_of_lt hpos)⟩
    next hodd =>
      have hborder : ¬(n = Nat.pow 2 52 ∧ e ≠ minExponent) := by
        rintro ⟨rfl, -⟩
        exact hodd (by decide)
      rw [if_neg hborder] at hlow' ⊢
      refine ⟨mul_lt_mul_of_pos_right (lt_of_le_of_ne hlow' ?_) hpos,
        mul_lt_mul_of_pos_right (lt_of_le_of_ne h.high ?_) hpos⟩
      · exact fun heq => hodd (h.tie (Or.inl heq.symm))
      · exact fun heq => hodd (h.tie (Or.inr heq))

/-- Of a mantissa with all of its bits none is lost. -/
theorem normal_of_nearest {q : ℚ} {n : ℕ} {e : ℤ} (h : Nearest q n) (he : minExponent ≤ e)
    (hlow : Nat.pow 2 52 ≤ q) (hhigh : q < Nat.pow 2 53) :
    (if n = Nat.pow 2 53 then Binary64.mk (Nat.pow 2 52) (e + 1) else ⟨n, e⟩).Normal := by
  have hbits : Nat.pow 2 52 < Nat.pow 2 53 := by decide
  have hleast : Nat.pow 2 52 ≤ n := by
    have : (Nat.pow 2 52 : ℚ) < n + 1 := by linarith [h.high]
    exact Nat.lt_succ_iff.mp (by exact_mod_cast this)
  have hmost : n ≤ Nat.pow 2 53 := by
    have : (n : ℚ) < Nat.pow 2 53 + 1 := by linarith [h.low]
    exact Nat.lt_succ_iff.mp (by exact_mod_cast this)
  split
  next => exact ⟨by dsimp only; omega, Nat.le_refl _, hbits⟩
  next hne => exact ⟨he, hleast, Nat.lt_of_le_of_ne hmost hne⟩

/-- A fraction that is brought to the exponent of its last bit has at most 53 bits in front of the
point, and 53 unless that exponent is larger. -/
theorem mantissa_bounds {r q : ℚ} {log e : ℤ} (hlow : (2 : ℚ) ^ log ≤ r)
    (hhigh : r < 2 ^ (log + 1)) (hr : r = q * 2 ^ e) :
    (log - 52 ≤ e → q < Nat.pow 2 53) ∧ (log - 52 = e → (Nat.pow 2 52 : ℚ) ≤ q) := by
  have hpos := two_zpow_pos e
  rw [hr] at hlow hhigh
  constructor
  · intro hle
    have hbound : (2 : ℚ) ^ (log + 1) ≤ (Nat.pow 2 53 : ℕ) * 2 ^ e := by
      rw [natPow_mul_zpow]
      exact zpow_le_zpow_right₀ (by norm_num) (by omega)
    exact lt_of_mul_lt_mul_right (lt_of_lt_of_le hhigh hbound) (le_of_lt hpos)
  · intro heq
    have hbound : ((Nat.pow 2 52 : ℕ) : ℚ) * 2 ^ e = 2 ^ log := by
      rw [natPow_mul_zpow]
      congr 1
      omega
    rw [← hbound] at hlow
    exact le_of_mul_le_mul_right hlow hpos

/-- How a fraction is rounded: it is brought to the exponent of its last bit and rounded there. -/
theorem round_cases {num den : ℕ} {x : Binary64} (hnum : 0 < num) (h : round num den = some x) :
    ∃ (e : ℤ) (up down : ℕ), e = max (logTwo num den - 52) minExponent ∧
      (up : ℚ) / down = 2 ^ e ∧ 0 < up ∧ 0 < down ∧
      x = if roundHalfEven (num * down) (den * up) = Nat.pow 2 53 then ⟨Nat.pow 2 52, e + 1⟩
        else ⟨roundHalfEven (num * down) (den * up), e⟩ := by
  unfold round at h
  rw [if_neg (Nat.ne_of_gt hnum)] at h
  dsimp only at h
  generalize max (logTwo num den - 52) minExponent = e at h ⊢
  obtain ⟨up, down, hpow⟩ : ∃ up down, powTwo e = (up, down) := ⟨_, _, rfl⟩
  have hratio := powTwo_ratio e
  obtain ⟨hup, hdown⟩ := powTwo_pos e
  rw [hpow] at h hratio hup hdown
  dsimp only at h
  generalize hrounded : (if roundHalfEven (num * down) (den * up) = Nat.pow 2 53 then
    Binary64.mk (Nat.pow 2 52) (e + 1)
    else ⟨roundHalfEven (num * down) (den * up), e⟩) = rounded at h
  by_cases hfits : rounded.exponent ≤ maxExponent
  · rw [if_pos hfits] at h
    obtain rfl := Option.some.inj h
    exact ⟨e, up, down, rfl, hratio, hup, hdown, hrounded.symm⟩
  · rw [if_neg hfits] at h
    cases h

/-- **A fraction is rounded to a number that covers it.**  It has all of its bits unless the fraction
is below the smallest such number. -/
theorem covers_of_round {num den : ℕ} {x : Binary64} (hnum : 0 < num) (hden : 0 < den)
    (h : round num den = some x) :
    x.Covers (num / den) ∧ ((2 : ℚ) ^ (minExponent + 52) ≤ num / den → x.Normal) := by
  obtain ⟨hlow, hhigh⟩ := logTwo_bounds hnum hden
  obtain ⟨e, up, down, hexp, hratio, hup, hdown, hx⟩ := round_cases hnum h
  have he : minExponent ≤ e := by omega
  have hden' : (0 : ℚ) < den := by exact_mod_cast hden
  have hup' : (0 : ℚ) < up := by exact_mod_cast hup
  have hdown' : (0 : ℚ) < down := by exact_mod_cast hdown
  -- the mantissa before it is rounded
  obtain ⟨q, hq⟩ : ∃ q : ℚ, q = ((num * down : ℕ) : ℚ) / (den * up : ℕ) := ⟨_, rfl⟩
  have hvalue : (num : ℚ) / den = q * 2 ^ e := by
    rw [hq, ← hratio]
    push_cast
    field_simp
  obtain ⟨hq_high, hq_low⟩ := mantissa_bounds hlow hhigh hvalue
  have hq_high := hq_high (by omega)
  have hnearest := nearest_roundHalfEven (num * down) (Nat.mul_pos hden hup)
  rw [← hq] at hnearest
  rw [hx]
  refine ⟨?_, fun hnormal => ?_⟩
  · rw [hvalue]
    exact covers_of_nearest hnearest he (fun hne => hq_low (by omega)) hq_high
  · -- a fraction that is large enough has the exponent of its logarithm
    have heq : logTwo num den - 52 = e := by
      apply Classical.byContradiction
      intro hne
      have hbound : (2 : ℚ) ^ (logTwo num den + 1) ≤ 2 ^ (minExponent + 52) :=
        zpow_le_zpow_right₀ (by norm_num) (by omega)
      linarith
    exact normal_of_nearest hnearest he (hq_low heq) hq_high

/-! ## Exact numbers -/

theorem roundHalfEven_mul (n : ℕ) {den : ℕ} (hden : 0 < den) : roundHalfEven (n * den) den = n := by
  unfold roundHalfEven
  simp [Nat.mul_div_cancel n hden, hden]

/-- A fraction that is a multiple of its last bit is not rounded. -/
theorem value_of_round {num den : ℕ} {x : Binary64} {m j : ℕ} (hm : m < Nat.pow 2 53)
    (hpos : 0 < m) (hden : 0 < den) (hnum : num = m * 2 ^ j * den) (h : round num den = some x) :
    x.value = m * 2 ^ j := by
  have hnum_pos : 0 < num := hnum ▸ Nat.mul_pos (Nat.mul_pos hpos (Nat.pow_pos (by decide))) hden
  have hden' : (den : ℚ) ≠ 0 := by exact_mod_cast Nat.ne_of_gt hden
  have hratio_num : (num : ℚ) / den = m * 2 ^ j := by
    rw [div_eq_iff hden', hnum]
    push_cast
    ring
  obtain ⟨hlow, -⟩ := logTwo_bounds hnum_pos hden
  obtain ⟨e, up, down, hexp, hratio, hup, hdown, rfl⟩ := round_cases hnum_pos h
  -- the last bit of the mantissa stands for at most `2 ^ j`
  have he : e ≤ j := by
    have hlt : (2 : ℚ) ^ logTwo num den < 2 ^ (53 + (j : ℤ)) := by
      rw [zpow_add₀ (by norm_num), zpow_natCast]
      refine lt_of_le_of_lt (hratio_num ▸ hlow) (mul_lt_mul_of_pos_right ?_ (by positivity))
      exact_mod_cast hm
    have hlog := (zpow_lt_zpow_iff_right₀ (by norm_num)).mp hlt
    have hmin : minExponent = -1074 := rfl
    omega
  obtain ⟨k, hk⟩ : ∃ k : ℕ, (j : ℤ) = k + e := ⟨(j - e).toNat, by omega⟩
  have hpowers : (2 : ℚ) ^ j = 2 ^ k * 2 ^ e := by
    rw [← zpow_natCast, hk, zpow_add₀ (by norm_num), zpow_natCast]
  have hexact : num * down = m * 2 ^ k * (den * up) := by
    have hdown' : (down : ℚ) ≠ 0 := by exact_mod_cast Nat.ne_of_gt hdown
    have hup' : (up : ℚ) = 2 ^ e * down := by rw [← hratio, div_mul_cancel₀ _ hdown']
    have hcast : ((num * down : ℕ) : ℚ) = (m * 2 ^ k * (den * up) : ℕ) := by
      rw [div_eq_iff hden'] at hratio_num
      push_cast
      rw [hratio_num, hpowers, hup']
      ring
    exact_mod_cast hcast
  rw [hexact, roundHalfEven_mul _ (Nat.mul_pos hden hup), hpowers]
  have hmantissa : ((m * 2 ^ k : ℕ) : ℚ) * 2 ^ e = m * (2 ^ k * 2 ^ e) := by
    push_cast
    ring
  rw [← hmantissa, value]
  split
  next hcarry =>
    have hstep : (2 : ℚ) ^ (e + 1) = 2 ^ e * 2 := zpow_add_one₀ (by norm_num) e
    have hbit : ((Nat.pow 2 53 : ℕ) : ℚ) = 2 * (Nat.pow 2 52 : ℕ) := by norm_num
    rw [hcarry, hbit, hstep]
    ring
  next => rfl

/-- **A natural number of 53 bits, or a multiple of it by a power of two, is not rounded.** -/
theorem value_of_ofNat {m j : ℕ} {x : Binary64} (hm : m < Nat.pow 2 53)
    (h : ofNat (m * 2 ^ j) = some x) : x.value = m * 2 ^ j := by
  rcases Nat.eq_zero_or_pos m with rfl | hpos
  · rw [Nat.zero_mul] at h
    obtain rfl := Option.some.inj h
    simp [value, zero]
  · exact value_of_round hm hpos Nat.one_pos (Nat.mul_one _).symm h

/-- The powers of ten that are numbers of the format themselves. -/
theorem value_of_ofNat_pow {k : ℕ} {x : Binary64} (hk : k ≤ 22)
    (h : ofNat (Nat.pow 10 k) = some x) : x.value = 10 ^ k := by
  have hfives : 5 ^ k < Nat.pow 2 53 :=
    Nat.lt_of_le_of_lt (Nat.pow_le_pow_right (by decide) hk) (by decide)
  have hten : Nat.pow 10 k = 5 ^ k * 2 ^ k := by
    rw [← Nat.mul_pow]
    rfl
  rw [hten] at h
  rw [value_of_ofNat hfives h]
  push_cast
  rw [← mul_pow]
  norm_num

/-! ## Products and quotients -/

section Products
variable {x y z : Binary64}

theorem fraction_pos_of_value (h : 0 < x.value) : 0 < x.fraction.1 := by
  apply Nat.pos_of_ne_zero
  intro hzero
  rw [← fraction_ratio, hzero, Nat.cast_zero, zero_div] at h
  exact lt_irrefl _ h

theorem covers_of_mul (hx : 0 < x.value) (hy : 0 < y.value) (h : x.mul y = some z) :
    z.Covers (x.value * y.value) ∧
      ((2 : ℚ) ^ (minExponent + 52) ≤ x.value * y.value → z.Normal) := by
  have hround := covers_of_round
    (Nat.mul_pos (fraction_pos_of_value hx) (fraction_pos_of_value hy))
    (Nat.mul_pos x.fraction_pos y.fraction_pos) h
  have hratio : ((x.fraction.1 * y.fraction.1 : ℕ) : ℚ) / (x.fraction.2 * y.fraction.2 : ℕ) =
      x.value * y.value := by
    rw [← fraction_ratio x, ← fraction_ratio y, div_mul_div_comm]
    push_cast
    rfl
  rwa [hratio] at hround

theorem covers_of_div (hx : 0 < x.value) (hy : 0 < y.value) (h : x.div y = some z) :
    z.Covers (x.value / y.value) ∧
      ((2 : ℚ) ^ (minExponent + 52) ≤ x.value / y.value → z.Normal) := by
  have hround := covers_of_round
    (Nat.mul_pos (fraction_pos_of_value hx) y.fraction_pos)
    (Nat.mul_pos x.fraction_pos (fraction_pos_of_value hy)) h
  have hratio : ((x.fraction.1 * y.fraction.2 : ℕ) : ℚ) / (x.fraction.2 * y.fraction.1 : ℕ) =
      x.value / y.value := by
    rw [← fraction_ratio x, ← fraction_ratio y, div_div_div_eq]
    push_cast
    rfl
  rwa [hratio] at hround

end Products

/-- **Few digits with a small power of ten are rounded once.** -/
theorem covers_of_scale {digits : ℕ} {exponent : ℤ} {x z : Binary64} (hpos : 0 < digits)
    (hdigits : digits < Nat.pow 2 53) (hlow : -22 ≤ exponent) (hhigh : exponent ≤ 22)
    (hx : ofNat digits = some x) (h : Json.scale 4 x exponent = some z) :
    z.Covers (digits * 10 ^ exponent) ∧ z.Normal := by
  have hvalue : x.value = digits := by
    have hone : digits * 2 ^ 0 = digits := Nat.mul_one _
    rw [← hone] at hx
    simpa using value_of_ofNat hdigits hx
  have hdigits' : (1 : ℚ) ≤ digits := by exact_mod_cast hpos
  have hx_pos : 0 < x.value := by linarith
  have hsmall : exponent.natAbs ≤ 308 := by omega
  rw [Json.scale, if_pos hsmall, Option.bind_eq_some_iff] at h
  obtain ⟨power, hpower, h⟩ := h
  have hten := value_of_ofNat_pow (by omega) hpower
  have hten_pos : 0 < power.value := by
    rw [hten]
    positivity
  have hnormal : (2 : ℚ) ^ (minExponent + 52) ≤ digits * 10 ^ exponent := by
    have hleast : (10 : ℚ) ^ (-22 : ℤ) ≤ 10 ^ exponent := zpow_le_zpow_right₀ (by norm_num) hlow
    have hten_exp : (0 : ℚ) < 10 ^ exponent := zpow_pos (by norm_num) _
    have htwo : (2 : ℚ) ^ (minExponent + 52) ≤ 2 ^ (-100 : ℤ) :=
      zpow_le_zpow_right₀ (by norm_num) (by decide)
    have hcompare : (2 : ℚ) ^ (-100 : ℤ) ≤ 10 ^ (-22 : ℤ) := by norm_num
    nlinarith
  by_cases hsign : 0 ≤ exponent
  · rw [if_pos hsign] at h
    have hproduct : x.value * power.value = digits * 10 ^ exponent := by
      obtain ⟨k, rfl⟩ := Int.eq_ofNat_of_zero_le hsign
      rw [hvalue, hten, Int.natAbs_natCast, zpow_natCast]
    have hmul := covers_of_mul hx_pos hten_pos h
    rw [hproduct] at hmul
    exact ⟨hmul.1, hmul.2 hnormal⟩
  · rw [if_neg hsign] at h
    have hquotient : x.value / power.value = digits * 10 ^ exponent := by
      obtain ⟨k, hk⟩ : ∃ k : ℕ, exponent = -k := ⟨exponent.natAbs, by omega⟩
      rw [hvalue, hten, hk, Int.natAbs_neg, Int.natAbs_natCast, zpow_neg, zpow_natCast,
        div_eq_mul_inv]
    have hdiv := covers_of_div hx_pos hten_pos h
    rw [hquotient] at hdiv
    exact ⟨hdiv.1, hdiv.2 hnormal⟩

end Binary64
end QueryLocator.Decimal
