import QueryLocator.Config.Datum
import QueryLocator.Yaml.Events

/-! # What scalars mean

A plain scalar stands for null, a boolean, a number or a string, as its spelling says; a quoted or
block scalar is a string.  A core tag asks for one of these kinds.  Integers are decimal, hexadecimal,
octal or binary; digits with a leading zero are a string.
-/
namespace QueryLocator.Yaml

open Decimal

/-- Why a scalar means nothing. -/
inductive ScalarFault where
  /-- The tag names a type of its own. -/
  | ownTag
  | unfit (mismatch : Mismatch)
  /-- An integer is too large; the type it would need is named. -/
  | large (value : Int) (type : String)
  deriving DecidableEq, Repr

/-- The text without a plus sign in front. -/
def dropPlus : List Char → List Char
  | '+' :: rest => rest
  | text => text

/-- Whether a text begins with a sign. -/
def isSigned (text : List Char) : Bool :=
  text.head?.any fun c => c == '+' || c == '-'

/-- Whether a text is a zero and more digits, with at most one sign in front. -/
def isPadded (text : List Char) : Bool :=
  match if isSigned text then text.drop 1 else text with
  | '0' :: rest => !rest.isEmpty && rest.all Char.isDigit
  | _ => false

/-- The value of digits in a base of at most sixteen. -/
def natural? (base : Nat) (digits : List Char) : Option Nat :=
  if digits.isEmpty then none
  else
    digits.foldlM (fun value c =>
      (hexValue? c).bind fun digit => if digit < base then some (value * base + digit) else none) 0

/-- The value of an integer without a minus sign. -/
def unsigned? (text : List Char) : Option Nat :=
  match dropPlus text with
  | '0' :: 'x' :: digits => natural? 16 digits
  | '0' :: 'o' :: digits => natural? 8 digits
  | '0' :: 'b' :: digits => natural? 2 digits
  | digits => if isPadded text then none else natural? 10 digits

/-- The magnitude of an integer with a minus sign. -/
def negative? : List Char → Option Nat
  | '-' :: '0' :: 'x' :: digits => natural? 16 digits
  | '-' :: '0' :: 'o' :: digits => natural? 8 digits
  | '-' :: '0' :: 'b' :: digits => natural? 2 digits
  | '-' :: digits => if isPadded digits then none else natural? 10 digits
  | _ => none

/-- The integer that a text spells.  It must be one of 64 bits; one that only 128 bits hold is a
fault, and a larger one is no integer. -/
def integer? (text : List Char) : Option (Except ScalarFault Int) :=
  match unsigned? text with
  | some value =>
    if value < Nat.pow 2 64 then some (.ok value)
    else if value < Nat.pow 2 128 then some (.error (.large value "u128"))
    else none
  | none =>
    match negative? text with
    | some value =>
      if value ≤ Nat.pow 2 63 then some (.ok (-value))
      else if value ≤ Nat.pow 2 127 then some (.error (.large (-value) "i128"))
      else none
    | none => none

/-- An exponent with its letter, or nothing. -/
def exponent? : List Char → Option Int
  | [] => some 0
  | letter :: '-' :: digits => if letter.toLower = 'e' then (natural? 10 digits).map (-↑·) else none
  | letter :: rest => if letter.toLower = 'e' then (natural? 10 (dropPlus rest)).map (↑·) else none

/-- The nearest floating point number to a decimal: digits with or without a point, and an exponent
after them.  Only a minus sign may stand in front. -/
def decimal? (text : List Char) : Option (Bool × Binary64) :=
  let isNegative := text.head? == some '-'
  let body := if isNegative then text.drop 1 else text
  let whole := body.takeWhile Char.isDigit
  let rest := body.dropWhile Char.isDigit
  let (places, rest) :=
    match rest with
    | '.' :: more => (more.takeWhile Char.isDigit, more.dropWhile Char.isDigit)
    | rest => ([], rest)
  match natural? 10 (whole ++ places), exponent? rest with
  | some digits, some exponent =>
    (Binary64.ofDecimal digits (exponent - places.length)).map (isNegative, ·)
  | _, _ => none

/-- The floating point number that a text spells; the inner value is missing for infinity and for what
is not a number. -/
def float? (text : List Char) : Option (Option (Bool × Binary64)) :=
  let unsigned := dropPlus text
  if text.head? == some '+' && isSigned unsigned then none
  else
    let word := String.ofList text
    if [".inf", ".Inf", ".INF"].contains (String.ofList unsigned)
        || ["-.inf", "-.Inf", "-.INF", ".nan", ".NaN", ".NAN"].contains word then
      some none
    else (decimal? unsigned).map some

/-- Whether a text spells null. -/
def isNullWord (text : List Char) : Bool :=
  ["~", "null", "Null", "NULL"].contains (String.ofList text)

/-- The boolean that a text spells. -/
def boolean? (text : List Char) : Option Bool :=
  let word := String.ofList text
  if ["true", "True", "TRUE"].contains word then some true
  else if ["false", "False", "FALSE"].contains word then some false
  else none

/-- What a plain scalar stands for. -/
def plainDatum (text : List Char) : Except ScalarFault Datum :=
  if text.isEmpty || isNullWord text then .ok .null
  else
    match boolean? text, integer? text with
    | some value, _ => .ok (.boolean value)
    | none, some found => found.map .integer
    | none, none =>
      match if isPadded text then none else float? text with
      | some value => .ok (.float value)
      | none => .ok (.string (String.ofList text))

/-- What a scalar with a core tag stands for. -/
def taggedDatum (kind : String) (text : List Char) : Except ScalarFault Datum :=
  let unfit (expected : String) : Except ScalarFault Datum :=
    .error (.unfit (.invalidValue (.string (String.ofList text)) expected))
  match kind with
  | "bool" => (boolean? text).elim (unfit "a boolean") fun value => .ok (.boolean value)
  | "int" => (integer? text).elim (unfit "an integer") fun found => found.map .integer
  | "float" => (float? text).elim (unfit "a float") fun value => .ok (.float value)
  | "null" => if isNullWord text then .ok .null else unfit "null"
  | _ => .ok (.string (String.ofList text))

/-- Whether a tag names a type of its own. -/
def isOwnTag (tag : Option (List Char)) : Bool :=
  tag.any fun text => text.head? == some '!'

/-- The beginning of the core tags. -/
def coreTagStart : List Char :=
  "tag:yaml.org,2002:".toList

/-- What a scalar stands for. -/
def ScalarEvent.datum (scalar : ScalarEvent) : Except ScalarFault Datum :=
  match scalar.tag with
  | none =>
    match scalar.style with
    | .plain => plainDatum scalar.text
    | .quoted | .block => .ok (.string (String.ofList scalar.text))
  | some tag =>
    if isOwnTag (some tag) then .error .ownTag
    else if coreTagStart.isPrefixOf tag then
      taggedDatum (String.ofList (tag.drop coreTagStart.length)) scalar.text
    else .ok (.string (String.ofList scalar.text))

end QueryLocator.Yaml
