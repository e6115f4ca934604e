import QueryLocator.Json.Failure
import QueryLocator.Json.Value

/-! # Reading JSON

A reader takes a value off the front of a text.  White space is space, tab, line feed and carriage
return.  No more than 127 brackets may be open inside one another.  A number that is no 64-bit
integer is the quotient or the product of its digits and a power of ten, each rounded to floating
point.
-/
namespace QueryLocator

open Decimal JsonFailure

/-- Takes something off the front of a text. -/
abbrev JsonReader (α : Type) := List Char → Except JsonFailure (α × List Char)

namespace Json

/-- White space between the tokens of a JSON text. -/
def isSpace (c : Char) : Bool :=
  c == ' ' || c == '\n' || c == '\t' || c == '\r'

/-- A text without the white space in front. -/
def skipSpace (text : List Char) : List Char :=
  text.dropWhile isSpace

/-- How many brackets may be opened inside one another before one is refused. -/
def nestingLimit : Nat := 127

/-! ## Words and strings -/

/-- Reads the given characters. -/
def readWord : List Char → JsonReader Unit
  | [], rest => .ok ((), rest)
  | _ :: _, [] => here .endInValue []
  | expected :: more, c :: rest =>
    if c = expected then readWord more rest else atNext .expectedWord (c :: rest)

/-- The value of a hexadecimal digit. -/
def hexValue? (c : Char) : Option Nat :=
  if c.isDigit then some (c.toNat - 0x30)
  else if 'a' ≤ c ∧ c ≤ 'f' then some (c.toNat - 0x61 + 10)
  else if 'A' ≤ c ∧ c ≤ 'F' then some (c.toNat - 0x41 + 10)
  else none

/-- Reads four hexadecimal digits.  They are looked at together, as four bytes. -/
def readHex : JsonReader Nat := fun text =>
  let refused := if Text.byteSize text < 4 then here .endInString []
    else .error ⟨.invalidEscape, some (Text.byteSize text - 4)⟩
  match text with
  | a :: b :: c :: d :: rest =>
    match hexValue? a, hexValue? b, hexValue? c, hexValue? d with
    | some a, some b, some c, some d => .ok (((a * 16 + b) * 16 + c) * 16 + d, rest)
    | _, _, _, _ => refused
  | _ => refused

/-- The character that a letter stands for behind a backslash. -/
def simpleEscape? (c : Char) : Option Char :=
  match c with
  | '"' => some '"'
  | '\\' => some '\\'
  | '/' => some '/'
  | 'b' => some '\x08'
  | 'f' => some '\x0c'
  | 'n' => some '\n'
  | 'r' => some '\r'
  | 't' => some '\t'
  | _ => none

/-- Reads the second half of a surrogate pair and gives the character. -/
def readSecondHalf (first : Nat) : JsonReader Char := fun text =>
  match text with
  | [] => here .endInString []
  | '\\' :: [] => here .endInString []
  | '\\' :: 'u' :: rest => do
    let (second, rest) ← readHex rest
    if 0xDC00 ≤ second ∧ second ≤ 0xDFFF then
      return (Char.ofNat ((first - 0xD800) * 0x400 + (second - 0xDC00) + 0x10000), rest)
    else here .loneSurrogate rest
  | '\\' :: rest => atNext .unfinishedSurrogate rest
  | _ => atNext .unfinishedSurrogate text

/-- Reads what follows a backslash. -/
def readEscape : JsonReader Char := fun text =>
  match text with
  | [] => here .endInString []
  | 'u' :: rest => do
    let (code, rest) ← readHex rest
    if 0xDC00 ≤ code ∧ code ≤ 0xDFFF then here .loneSurrogate rest
    else if 0xD800 ≤ code ∧ code ≤ 0xDBFF then readSecondHalf code rest
    else return (Char.ofNat code, rest)
  | c :: rest =>
    match simpleEscape? c with
    | some c => .ok (c, rest)
    | none => atNext .invalidEscape text

/-- Reads the rest of a string up to its closing quote.  The first argument bounds the number of
characters. -/
def readCharacters : Nat → JsonReader (List Char)
  | 0, text => here .endInString text
  | _, [] => here .endInString []
  | bound + 1, c :: rest =>
    if c == '"' then .ok ([], rest)
    else if c == '\\' then do
      let (c, rest) ← readEscape rest
      let (more, rest) ← readCharacters bound rest
      return (c :: more, rest)
    else if c.toNat < 0x20 then here .controlCharacter rest
    else do
      let (more, rest) ← readCharacters bound rest
      return (c :: more, rest)

/-- Reads a string whose opening quote has been read. -/
def readString : JsonReader String := fun text => do
  let (characters, rest) ← readCharacters (text.length + 1) text
  return (String.ofList characters, rest)

/-! ## Numbers -/

/-- The largest integer without a sign. -/
def maxUnsigned : Nat := Nat.pow 2 64 - 1

/-- The largest exponent that is read. -/
def maxExponent : Nat := Nat.pow 2 31 - 1

/-- The value of a decimal digit. -/
def digitValue (c : Char) : Nat :=
  c.toNat - 0x30

/-- Whether a text begins with a digit. -/
def startsWithDigit (text : List Char) : Bool :=
  text.head?.any Char.isDigit

/-- Adds the digits in front of a text to a number while it stays within 64 bits, and counts them. -/
def gatherDigits (value count : Nat) : List Char → Nat × Nat × List Char
  | c :: rest =>
    let next := value * 10 + digitValue c
    if c.isDigit && next ≤ maxUnsigned then gatherDigits next (count + 1) rest
    else (value, count, c :: rest)
  | [] => (value, count, [])

/-- A text without the digits in front. -/
def skipDigits (text : List Char) : List Char :=
  text.dropWhile Char.isDigit

/-- Digits and a power of ten as a floating point number: their product or their quotient.  A power
beyond `10 ^ 308` is taken off in steps. -/
def scale : Nat → Binary64 → Int → Option Binary64
  | 0, x, _ => some x
  | steps + 1, x, exponent =>
    if exponent.natAbs ≤ 308 then
      (Binary64.ofNat (Nat.pow 10 exponent.natAbs)).bind fun power =>
        if 0 ≤ exponent then x.mul power else x.div power
    else if x.isZero then some x
    else if 0 ≤ exponent then none
    else
      ((Binary64.ofNat (Nat.pow 10 308)).bind x.div).bind fun x => scale steps x (exponent + 308)

/-- A floating point number with a sign from its digits and its power of ten. -/
def floatOf (negative : Bool) (digits : Nat) (exponent : Int) : JsonReader JsonNumber := fun rest =>
  match (Binary64.ofNat digits).bind fun x => scale 4 x exponent with
  | some x => .ok (.float negative x, rest)
  | none => here .numberOutOfRange rest

/-- Reads the digits of an exponent.  Gives nothing for an exponent that is too large; then the text
is what follows its first digit too many. -/
def readExponentDigits (value : Nat) : List Char → Option Nat × List Char
  | c :: rest =>
    if c.isDigit then
      let next := value * 10 + digitValue c
      if next ≤ maxExponent then readExponentDigits next rest else (none, rest)
    else (some value, c :: rest)
  | [] => (some value, [])

/-- Reads an exponent whose letter has been read. -/
def readExponent (negative : Bool) (digits : Nat) (exponent : Int) : JsonReader JsonNumber :=
  fun text =>
    let (down, text) :=
      match text with
      | '+' :: rest => (false, rest)
      | '-' :: rest => (true, rest)
      | _ => (false, text)
    match text with
    | [] => here .endInValue []
    | c :: _ =>
      if !c.isDigit then atNext .invalidNumber text
      else match readExponentDigits 0 text with
        | (some value, rest) =>
          floatOf negative digits (if down then exponent - value else exponent + value) rest
        | (none, rest) =>
          if digits ≠ 0 ∧ !down then here .numberOutOfRange rest
          else .ok (.float negative .zero, skipDigits rest)

/-- Reads an exponent if there is one. -/
def readExponentPart (negative : Bool) (digits : Nat) (exponent : Int) : JsonReader JsonNumber :=
  fun text =>
    match text with
    | 'e' :: rest | 'E' :: rest => readExponent negative digits exponent rest
    | _ => floatOf negative digits exponent text

/-- Reads the digits behind a decimal point.  Digits that no longer fit into 64 bits are dropped. -/
def readFraction (negative : Bool) (digits : Nat) (exponent : Int) : JsonReader JsonNumber :=
  fun text =>
    let (digits, count, rest) := gatherDigits digits 0 text
    if startsWithDigit rest then
      readExponentPart negative digits (exponent - count) (skipDigits rest)
    else if count = 0 then
      if rest.isEmpty then here .endInValue [] else atNext .invalidNumber rest
    else readExponentPart negative digits (exponent - count) rest

/-- An integer with a sign.  Minus zero, and what does not fit into 64 bits, is a floating point
number. -/
def signedNumber (negative : Bool) (value : Nat) : JsonReader JsonNumber := fun rest =>
  if negative then
    if 0 < value ∧ value ≤ Nat.pow 2 63 then .ok (.integer (-value), rest)
    else floatOf true value 0 rest
  else .ok (.integer value, rest)

/-- Reads what follows the integer digits of a number. -/
def readNumberTail (negative : Bool) (digits : Nat) (dropped : Nat) : JsonReader JsonNumber :=
  fun text =>
    match text with
    | '.' :: rest => readFraction negative digits dropped rest
    | 'e' :: rest | 'E' :: rest => readExponent negative digits dropped rest
    | _ =>
      if dropped = 0 then signedNumber negative digits text
      else floatOf negative digits dropped text

/-- Reads a number whose sign has been read.  Integer digits that no longer fit into 64 bits are
dropped and raise the exponent. -/
def readNumber (negative : Bool) : JsonReader JsonNumber := fun text =>
  match text with
  | [] => here .endInValue []
  | '0' :: rest =>
    if startsWithDigit rest then atNext .invalidNumber rest
    else readNumberTail negative 0 0 rest
  | c :: _ =>
    if c.isDigit then
      let (digits, _, rest) := gatherDigits 0 0 text
      let rest' := skipDigits rest
      readNumberTail negative digits (rest.length - rest'.length) rest'
    else atNext .invalidNumber text

/-! ## Arrays and objects -/

/-- Goes to the next item of an array, or behind its end.  Answers whether there is an item. -/
def nextItem (first : Bool) : JsonReader Bool := fun text =>
  match skipSpace text with
  | [] => here .endInList []
  | ']' :: rest => .ok (false, rest)
  | c :: rest =>
    if first then .ok (true, c :: rest)
    else if c == ',' then
      match skipSpace rest with
      | [] => here .endInValue []
      | ']' :: rest => atNext .trailingComma (']' :: rest)
      | rest => .ok (true, rest)
    else atNext .expectedItem (c :: rest)

/-- Goes to the next key of an object and behind its opening quote, or behind the end of the object.
Answers whether there is a key. -/
def nextKey (first : Bool) : JsonReader Bool := fun text =>
  let key (text : List Char) : Except JsonFailure (Bool × List Char) :=
    match text with
    | [] => here .endInValue []
    | '"' :: rest => .ok (true, rest)
    | '\x7d' :: _ => atNext .trailingComma text
    | _ => atNext .keyNotString text
  match skipSpace text with
  | [] => here .endInObject []
  | '\x7d' :: rest => .ok (false, rest)
  | c :: rest =>
    if first then key (c :: rest)
    else if c == ',' then key (skipSpace rest)
    else atNext .expectedMember (c :: rest)

/-- Reads the colon behind a key. -/
def readColon : JsonReader Unit := fun text =>
  match skipSpace text with
  | [] => here .endInObject []
  | ':' :: rest => .ok ((), rest)
  | rest => atNext .expectedColon rest

/-- Reads the items of an array up to its end.  The first argument bounds their number. -/
def readItems {α : Type} (item : JsonReader α) : Nat → Bool → JsonReader (List α)
  | 0, _, text => here .endInList text
  | bound + 1, first, text => do
    let (more, rest) ← nextItem first text
    if more then
      let (value, rest) ← item rest
      let (values, rest) ← readItems item bound false rest
      return (value :: values, rest)
    else return ([], rest)

/-- Reads the members of an object up to its end.  The first argument bounds their number. -/
def readMembers {α : Type} (value : JsonReader α) : Nat → Bool → JsonReader (List (String × α))
  | 0, _, text => here .endInObject text
  | bound + 1, first, text => do
    let (more, rest) ← nextKey first text
    if more then
      let (key, rest) ← readString rest
      let ((), rest) ← readColon rest
      let (found, rest) ← value rest
      let (members, rest) ← readMembers value bound false rest
      return ((key, found) :: members, rest)
    else return ([], rest)

/-- Reads a value without parts whose first character is given.  The value is none of the others. -/
def readLeaf (c : Char) (rest : List Char) : Except JsonFailure (Json × List Char) :=
  if c == 'n' then do
    let ((), rest) ← readWord ['u', 'l', 'l'] rest
    return (null, rest)
  else if c == 't' then do
    let ((), rest) ← readWord ['r', 'u', 'e'] rest
    return (boolean true, rest)
  else if c == 'f' then do
    let ((), rest) ← readWord ['a', 'l', 's', 'e'] rest
    return (boolean false, rest)
  else if c == '-' then do
    let (value, rest) ← readNumber true rest
    return (number value, rest)
  else if c.isDigit then do
    let (value, rest) ← readNumber false (c :: rest)
    return (number value, rest)
  else if c == '"' then do
    let (value, rest) ← readString rest
    return (string value, rest)
  else atNext .expectedValue (c :: rest)

/-- Reads a value inside which so many brackets may still be opened. -/
def readValue (depth : Nat) : JsonReader Json := fun text =>
  match skipSpace text with
  | [] => here .endInValue []
  | c :: rest =>
    if c == '[' then
      match depth with
      | 0 => atNext .nestingLimit (c :: rest)
      | depth + 1 => do
        let (items, rest) ← readItems (readValue depth) (rest.length + 1) true rest
        return (array items, rest)
    else if c == '\x7b' then
      match depth with
      | 0 => atNext .nestingLimit (c :: rest)
      | depth + 1 => do
        let (members, rest) ← readMembers (readValue depth) (rest.length + 1) true rest
        return (object members, rest)
    else readLeaf c rest

/-- Reads the end of a text, at which there is only white space. -/
def readEnd (text : List Char) : Except JsonFailure Unit :=
  match skipSpace text with
  | [] => .ok ()
  | rest => atNext .trailingCharacters rest

/-- Reads a whole text by a reader. -/
def readWhole {α : Type} (reader : JsonReader α) (text : List Char) : Except JsonFailure α := do
  let (value, rest) ← reader text
  readEnd rest
  return value

/-- Reads a whole text as a value. -/
def parse (text : String) : Except JsonFailure Json :=
  readWhole (readValue nestingLimit) text.toList

end Json
end QueryLocator
