/-! # Binary floating point numbers

The magnitudes of the finite numbers of the format with 53 significant bits, as exact values, and
the operations that round to them.  A result is the nearest number of the format; half way between
two numbers it is the one with the even mantissa; beyond the largest number there is none.
-/
namespace QueryLocator.Decimal

/-- The number `mantissa * 2 ^ exponent`.  The mantissa is below `2 ^ 53`; it is at least `2 ^ 52`
unless the exponent is the least one, `-1074`. -/
structure Binary64 where
  mantissa : Nat
  exponent : Int
  deriving DecidableEq, Repr

namespace Binary64

/-- The least exponent. -/
def minExponent : Int := -1074

/-- The largest exponent. -/
def maxExponent : Int := 971

/-- The number zero. -/
def zero : Binary64 := ⟨0, minExponent⟩

/-- Whether the number is zero. -/
def isZero (x : Binary64) : Bool :=
  x.mantissa == 0

/-- A power of two as a factor above and a factor below the fraction bar. -/
def powTwo (e : Int) : Nat × Nat :=
  if 0 ≤ e then (Nat.pow 2 e.toNat, 1) else (1, Nat.pow 2 (-e).toNat)

/-- The number as a fraction. -/
def fraction (x : Binary64) : Nat × Nat :=
  let (up, down) := powTwo x.exponent
  (x.mantissa * up, down)

/-- The quotient of two numbers rounded to the nearest integer, a half to the even one. -/
def roundHalfEven (num den : Nat) : Nat :=
  let quotient := num / den
  let twice := 2 * (num % den)
  if twice < den then quotient
  else if den < twice then quotient + 1
  else if quotient % 2 = 0 then quotient
  else quotient + 1

/-- The largest `k` with `2 ^ k ≤ num / den`, for a positive fraction. -/
def logTwo (num den : Nat) : Int :=
  let estimate : Int := (num.log2 : Int) - (den.log2 : Int)
  let (up, down) := powTwo estimate
  if den * up ≤ num * down then estimate else estimate - 1

/-- The number nearest to a fraction, if it is not beyond the largest one. -/
def round (num den : Nat) : Option Binary64 :=
  if num = 0 then some zero
  else
    let exponent := max (logTwo num den - 52) minExponent
    let (up, down) := powTwo exponent
    let mantissa := roundHalfEven (num * down) (den * up)
    let rounded : Binary64 :=
      if mantissa = Nat.pow 2 53 then ⟨Nat.pow 2 52, exponent + 1⟩ else ⟨mantissa, exponent⟩
    if rounded.exponent ≤ maxExponent then some rounded else none

/-- The number nearest to a natural number. -/
def ofNat (n : Nat) : Option Binary64 :=
  round n 1

/-- The product of two numbers. -/
def mul (x y : Binary64) : Option Binary64 :=
  let (a, b) := x.fraction
  let (c, d) := y.fraction
  round (a * c) (b * d)

/-- The quotient of two numbers, of which the second is not zero. -/
def div (x y : Binary64) : Option Binary64 :=
  let (a, b) := x.fraction
  let (c, d) := y.fraction
  round (a * d) (b * c)

/-- The number nearest to `digits * 10 ^ exponent`.  Powers far beyond the range of the format are
not computed. -/
def ofDecimal (digits : Nat) (exponent : Int) : Option Binary64 :=
  if digits = 0 ∨ exponent + digits.log2 < -400 then some zero
  else if 400 < exponent then none
  else if 0 ≤ exponent then round (digits * Nat.pow 10 exponent.toNat) 1
  else round digits (Nat.pow 10 (-exponent).toNat)

/-- A third has the expected mantissa, and a tie goes to the even neighbour. -/
example : round 1 3 = some ⟨6004799503160661, -54⟩ ∧ ofNat (2 ^ 53 + 1) = some ⟨2 ^ 52, 1⟩ := by
  decide

end Binary64
end QueryLocator.Decimal
