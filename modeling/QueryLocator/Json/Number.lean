import QueryLocator.Decimal.Shortest

/-! # Numbers of JSON values

A number is an integer of 64 bits, with or without a sign, or a floating point number.  An integer
keeps its value; everything else is rounded to floating point.
-/
namespace QueryLocator

open Decimal

/-- A number of a JSON value.  Integers lie between `-2 ^ 63` and `2 ^ 64 - 1`. -/
inductive JsonNumber where
  | integer (value : Int)
  | float (negative : Bool) (magnitude : Binary64)
  deriving DecidableEq, Repr

namespace JsonNumber

/-- Writes a decimal without an exponent, and with a point.  The digits are positional when the first
of them stands for `10 ^ leading`. -/
def positional (digits : List Char) (exponent : Int) : List Char :=
  if 0 ≤ exponent then
    digits ++ List.replicate exponent.toNat '0' ++ ['.', '0']
  else
    let places := (-exponent).toNat
    if places < digits.length then
      digits.take (digits.length - places) ++ '.' :: digits.drop (digits.length - places)
    else
      '0' :: '.' :: (List.replicate (places - digits.length) '0' ++ digits)

/-- Writes a decimal with one digit in front of the point and an exponent with its sign.  A single
digit has no point. -/
def scientific (digits : List Char) (leading : Int) : List Char :=
  let mantissa :=
    match digits with
    | first :: next :: more => first :: '.' :: next :: more
    | short => short
  mantissa ++ 'e' :: (if leading < 0 then '-' else '+') :: digitsOf leading.natAbs

/-- Writes the shortest decimal of a floating point number: positionally from `10 ^ -5` up to and
not including `10 ^ 16`, otherwise with an exponent. -/
def floatText (negative : Bool) (magnitude : Binary64) : List Char :=
  let decimal := magnitude.shortest
  let digits := digitsOf decimal.digits
  let leading := decimal.exponent + digits.length - 1
  let text :=
    if -5 ≤ leading ∧ leading < 16 then positional digits decimal.exponent
    else scientific digits leading
  if negative then '-' :: text else text

/-- Writes an integer in decimal. -/
def integerText (value : Int) : List Char :=
  if value < 0 then '-' :: digitsOf value.natAbs else digitsOf value.natAbs

/-- The text of a number. -/
def text : JsonNumber → List Char
  | integer value => integerText value
  | float negative magnitude => floatText negative magnitude

end JsonNumber
end QueryLocator
