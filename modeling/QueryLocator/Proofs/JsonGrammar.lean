import Mathlib.Algebra.Order.Field.Rat

/-! # The grammar of JSON and what its texts mean

A JSON text stands for a payload: a tree of words, numerals, strings, lists and members with keys.
A numeral is kept as it is spelled and has an exact rational value; a string is a sequence of
UTF-16 code units, so that the escapes of a surrogate pair stand for the same as the character itself.
The grammar knows no limits: neither the size of a numeral nor the depth of the brackets is bounded, and
a string may hold half of a surrogate pair.

`Denotes` says what a whole text stands for, and `SameData` that two payloads agree in everything but
their numerals, which are compared by a relation of their own.
-/
namespace QueryLocator.Grammar

/-! ## Numerals -/

/-- The exponent of a numeral: a letter, a sign or none, and digits. -/
structure Exponent where
  letter : Char
  sign : List Char
  digits : List Char
  letter_mem : letter ∈ ['e', 'E'] := by decide
  sign_mem : sign ∈ [[], ['+'], ['-']] := by decide
  digits_ne_nil : digits ≠ [] := by decide
  isDigit : ∀ c ∈ digits, c.isDigit = true := by exact List.all_eq_true.mp rfl

namespace Exponent

/-- The text of an exponent. -/
def text (exponent : Exponent) : List Char :=
  exponent.letter :: (exponent.sign ++ exponent.digits)

/-- The power of ten that an exponent stands for. -/
def value (exponent : Exponent) : ℤ :=
  let size := Nat.ofDigitChars 10 exponent.digits 0
  if exponent.sign = ['-'] then -size else size

end Exponent

/-- A number as it is spelled: a sign, digits in front of the point, of which a zero stands alone,
digits behind the point, and an exponent.  Without digits behind it there is no point. -/
structure Numeral where
  negative : Bool
  whole : List Char
  fraction : List Char
  exponent? : Option Exponent
  whole_ne_nil : whole ≠ [] := by decide
  isDigit_whole : ∀ c ∈ whole, c.isDigit = true := by exact List.all_eq_true.mp rfl
  isDigit_fraction : ∀ c ∈ fraction, c.isDigit = true := by exact List.all_eq_true.mp rfl
  whole_leading : whole = ['0'] ∨ whole.head? ≠ some '0' := by decide

namespace Numeral

/-- The text of the digits behind the point, with the point. -/
def fractionText (numeral : Numeral) : List Char :=
  match numeral.fraction with
  | [] => []
  | digits => '.' :: digits

/-- The text of the exponent, if there is one. -/
def exponentText (numeral : Numeral) : List Char :=
  match numeral.exponent? with
  | none => []
  | some exponent => exponent.text

/-- The text of a numeral behind its sign. -/
def unsigned (numeral : Numeral) : List Char :=
  numeral.whole ++ (numeral.fractionText ++ numeral.exponentText)

/-- The text of a numeral. -/
def text (numeral : Numeral) : List Char :=
  if numeral.negative then '-' :: numeral.unsigned else numeral.unsigned

/-- The digits of a numeral as an integer. -/
def coefficient (numeral : Numeral) : ℕ :=
  Nat.ofDigitChars 10 (numeral.whole ++ numeral.fraction) 0

/-- The power of ten by which the coefficient counts. -/
def power (numeral : Numeral) : ℤ :=
  numeral.exponent?.elim 0 Exponent.value - numeral.fraction.length

/-- The number that a numeral stands for. -/
def value (numeral : Numeral) : ℚ :=
  (if numeral.negative then -1 else 1) * (numeral.coefficient * 10 ^ numeral.power)

/-- A numeral without a point and without an exponent. -/
def IsInteger (numeral : Numeral) : Prop :=
  numeral.fraction = [] ∧ numeral.exponent? = none

end Numeral

/-! ## Strings -/

/-- The UTF-16 code units of a character: itself, or a pair of surrogates. -/
def unitsOf (c : Char) : List ℕ :=
  if c.toNat < 0x10000 then [c.toNat]
  else [0xD800 + (c.toNat - 0x10000) / 0x400, 0xDC00 + (c.toNat - 0x10000) % 0x400]

/-- The letters behind a backslash and what they stand for. -/
def escapes : List (Char × Char) :=
  [('"', '"'), ('\\', '\\'), ('/', '/'), ('b', '\x08'), ('f', '\x0c'), ('n', '\n'), ('r', '\r'),
    ('t', '\t')]

/-- The hexadecimal digits in lower and in upper case, in the order of their values. -/
def hexDigits : List (Char × Char) :=
  [('0', '0'), ('1', '1'), ('2', '2'), ('3', '3'), ('4', '4'), ('5', '5'), ('6', '6'), ('7', '7'),
    ('8', '8'), ('9', '9'), ('a', 'A'), ('b', 'B'), ('c', 'C'), ('d', 'D'), ('e', 'E'), ('f', 'F')]

/-- A hexadecimal digit and its value. -/
def IsHexDigit (c : Char) (n : ℕ) : Prop :=
  ∃ digits, hexDigits[n]? = some digits ∧ (c = digits.1 ∨ c = digits.2)

/-- What stands between the quotes of a string, and the code units of the string. -/
inductive IsString : List Char → List ℕ → Prop
  | empty : IsString [] []
  | plain {c : Char} {text : List Char} {units : List ℕ} (hquote : c ≠ '"') (hbackslash : c ≠ '\\')
      (hcontrol : 0x20 ≤ c.toNat) (h : IsString text units) : IsString (c :: text) (unitsOf c ++ units)
  | letter {c d : Char} {text : List Char} {units : List ℕ} (hletter : (c, d) ∈ escapes)
      (h : IsString text units) : IsString ('\\' :: c :: text) (d.toNat :: units)
  | code {a b c d : Char} {i j k l : ℕ} {text : List Char} {units : List ℕ} (ha : IsHexDigit a i)
      (hb : IsHexDigit b j) (hc : IsHexDigit c k) (hd : IsHexDigit d l) (h : IsString text units) :
      IsString ('\\' :: 'u' :: a :: b :: c :: d :: text)
        ((((i * 16 + j) * 16 + k) * 16 + l) :: units)

/-! ## Values -/

/-- What a JSON text stands for.  Keys are code units as strings are; they may come again. -/
inductive Payload where
  | null
  | boolean (value : Bool)
  | number (numeral : Numeral)
  | string (units : List ℕ)
  | array (items : List Payload)
  | object (members : List (List ℕ × Payload))

/-- White space between tokens. -/
def IsBlank (text : List Char) : Prop :=
  ∀ c ∈ text, c ∈ [' ', '\t', '\n', '\r']

mutual

/-- The text of a value, from its first character to its last. -/
inductive IsValue : List Char → Payload → Prop
  | null : IsValue ['n', 'u', 'l', 'l'] .null
  | yes : IsValue ['t', 'r', 'u', 'e'] (.boolean true)
  | no : IsValue ['f', 'a', 'l', 's', 'e'] (.boolean false)
  | number (numeral : Numeral) : IsValue numeral.text (.number numeral)
  | string {text : List Char} {units : List ℕ} (h : IsString text units) :
      IsValue ('"' :: (text ++ ['"'])) (.string units)
  | emptyArray {space : List Char} (h : IsBlank space) : IsValue ('[' :: (space ++ [']'])) (.array [])
  | array {text : List Char} {items : List Payload} (h : IsItems text items) :
      IsValue ('[' :: (text ++ [']'])) (.array items)
  | emptyObject {space : List Char} (h : IsBlank space) :
      IsValue ('\x7b' :: (space ++ ['\x7d'])) (.object [])
  | object {text : List Char} {members : List (List ℕ × Payload)} (h : IsMembers text members) :
      IsValue ('\x7b' :: (text ++ ['\x7d'])) (.object members)

/-- The text of a value with white space around it. -/
inductive IsElement : List Char → Payload → Prop
  | intro {before text after : List Char} {payload : Payload} (hbefore : IsBlank before)
      (h : IsValue text payload) (hafter : IsBlank after) :
      IsElement (before ++ (text ++ after)) payload

/-- The text of the items of an array, of which there is at least one. -/
inductive IsItems : List Char → List Payload → Prop
  | last {text : List Char} {item : Payload} (h : IsElement text item) : IsItems text [item]
  | next {text more : List Char} {item : Payload} {items : List Payload} (h : IsElement text item)
      (hmore : IsItems more items) : IsItems (text ++ ',' :: more) (item :: items)

/-- The text of the members of an object, of which there is at least one. -/
inductive IsMembers : List Char → List (List ℕ × Payload) → Prop
  | last {before key after text : List Char} {units : List ℕ} {value : Payload}
      (hbefore : IsBlank before) (hkey : IsString key units) (hafter : IsBlank after)
      (h : IsElement text value) :
      IsMembers (before ++ '"' :: (key ++ '"' :: (after ++ ':' :: text))) [(units, value)]
  | next {before key after text more : List Char} {units : List ℕ} {value : Payload}
      {members : List (List ℕ × Payload)} (hbefore : IsBlank before) (hkey : IsString key units)
      (hafter : IsBlank after) (h : IsElement text value) (hmore : IsMembers more members) :
      IsMembers (before ++ '"' :: (key ++ '"' :: (after ++ ':' :: (text ++ ',' :: more))))
        ((units, value) :: members)

end

/-- A whole text and what it stands for. -/
def Denotes (raw : String) (payload : Payload) : Prop :=
  IsElement raw.toList payload

/-! ## Payloads -/

namespace Payload

mutual

/-- No object of a payload has a key twice. -/
def UniqueKeys : Payload → Prop
  | array items => UniqueKeysInItems items
  | object members => (members.map Prod.fst).Nodup ∧ UniqueKeysInMembers members
  | null | boolean _ | number _ | string _ => True

/-- No object inside items has a key twice. -/
def UniqueKeysInItems : List Payload → Prop
  | [] => True
  | item :: items => item.UniqueKeys ∧ UniqueKeysInItems items

/-- No object inside the values of members has a key twice. -/
def UniqueKeysInMembers : List (List ℕ × Payload) → Prop
  | [] => True
  | (_, value) :: members => value.UniqueKeys ∧ UniqueKeysInMembers members

end

end Payload

section Same
variable (R : Numeral → Numeral → Prop)

mutual

/-- Two payloads with the same structure, the same keys in the same order and the same strings, whose
numerals are related. -/
inductive SameData : Payload → Payload → Prop
  | null : SameData .null .null
  | boolean (value : Bool) : SameData (.boolean value) (.boolean value)
  | number {numeral numeral' : Numeral} (h : R numeral numeral') :
      SameData (.number numeral) (.number numeral')
  | string (units : List ℕ) : SameData (.string units) (.string units)
  | array {items items' : List Payload} (h : SameItems items items') :
      SameData (.array items) (.array items')
  | object {members members' : List (List ℕ × Payload)} (h : SameMembers members members') :
      SameData (.object members) (.object members')

/-- Items that agree one by one. -/
inductive SameItems : List Payload → List Payload → Prop
  | nil : SameItems [] []
  | cons {item item' : Payload} {items items' : List Payload} (h : SameData item item')
      (hmore : SameItems items items') : SameItems (item :: items) (item' :: items')

/-- Members that agree one by one. -/
inductive SameMembers : List (List ℕ × Payload) → List (List ℕ × Payload) → Prop
  | nil : SameMembers [] []
  | cons {key : List ℕ} {value value' : Payload} {members members' : List (List ℕ × Payload)}
      (h : SameData value value') (hmore : SameMembers members members') :
      SameMembers ((key, value) :: members) ((key, value') :: members')

end

end Same

end QueryLocator.Grammar
