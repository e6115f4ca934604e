import QueryLocator.Decimal.Binary64

/-! # Shortest decimals

The shortest decimal that reads back as a given floating point number: of all decimals with the
fewest digits that are nearer to the number than to its neighbours, the one nearest to it.
-/
namespace QueryLocator.Decimal

/-- The decimal `digits * 10 ^ exponent`. -/
structure Scaled where
  digits : Nat
  exponent : Int
  deriving DecidableEq, Repr

/-- The decimal digits of a number. -/
def digitsOf (n : Nat) : List Char :=
  Nat.toDigits 10 n

namespace Binary64

/-- A number and the reals that round to it, as numerators over one denominator.  The ends belong to
the interval when the mantissa is even. -/
structure RoundingInterval where
  low : Nat
  value : Nat
  high : Nat
  denominator : Nat
  closed : Bool

/-- The interval of a number other than zero.  Below a power of two its neighbour is only half as
far. -/
def roundingInterval (x : Binary64) : RoundingInterval :=
  let (up, down) := powTwo (x.exponent - 2)
  let below := if x.mantissa = Nat.pow 2 52 ∧ x.exponent ≠ minExponent then 1 else 2
  { low := (4 * x.mantissa - below) * up
    value := 4 * x.mantissa * up
    high := (4 * x.mantissa + 2) * up
    denominator := down
    closed := x.mantissa % 2 == 0 }

namespace RoundingInterval

/-- Whether a decimal of the grid `10 ^ exponent` lies in the interval. -/
def holds (interval : RoundingInterval) (decimal : Scaled) : Bool :=
  let up := Nat.pow 10 decimal.exponent.toNat
  let down := Nat.pow 10 (-decimal.exponent).toNat
  let point := decimal.digits * up * interval.denominator
  if interval.closed then interval.low * down ≤ point && point ≤ interval.high * down
  else interval.low * down < point && point < interval.high * down

/-- The point of the grid `10 ^ exponent` to be taken for the number, if one lies in the interval:
of the two next to the number the nearer one, and of two equally near ones the even one. -/
def onGrid (interval : RoundingInterval) (exponent : Int) : Option Scaled :=
  let value := interval.value * Nat.pow 10 (-exponent).toNat
  let unit := interval.denominator * Nat.pow 10 exponent.toNat
  let lower : Scaled := ⟨value / unit, exponent⟩
  let upper : Scaled := ⟨value / unit + 1, exponent⟩
  let twice := 2 * (value % unit)
  let lowerFirst := twice < unit || (twice == unit && lower.digits % 2 == 0)
  match interval.holds lower, interval.holds upper with
  | true, true => some (if lowerFirst then lower else upper)
  | true, false => some lower
  | false, true => some upper
  | false, false => none

/-- The first grid with a point in the interval, from coarse to fine. -/
def search (interval : RoundingInterval) : Nat → Int → Option Scaled
  | 0, _ => none
  | grids + 1, exponent =>
    match interval.onGrid exponent with
    | some decimal => some decimal
    | none => search interval grids (exponent - 1)

end RoundingInterval

/-- The exponent of the first decimal digit of a number other than zero.  No number is below
`10 ^ -324`. -/
def leadingExponent (x : Binary64) : Int :=
  let (num, den) := x.fraction
  ((digitsOf (num * Nat.pow 10 324 / den)).length : Int) - 325

/-- Takes factors of ten out of the digits, at most so many. -/
def trimZeros : Nat → Scaled → Scaled
  | 0, decimal => decimal
  | count + 1, decimal =>
    if decimal.digits ≠ 0 ∧ decimal.digits % 10 = 0 then
      trimZeros count ⟨decimal.digits / 10, decimal.exponent + 1⟩
    else decimal

/-- The shortest decimal that reads back as the number.  Seventeen digits are always enough. -/
def shortest (x : Binary64) : Scaled :=
  if x.isZero then ⟨0, 0⟩
  else trimZeros 17 ((x.roundingInterval.search 17 x.leadingExponent).getD ⟨0, 0⟩)

example : (Binary64.mk 1 minExponent).shortest = ⟨5, -324⟩ := by decide +kernel

end Binary64
end QueryLocator.Decimal
