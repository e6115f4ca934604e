import QueryLocator.Json.Reader

/-! # Reading JSON against a shape

A shape says what a text has to hold: a count, a text, one of some words, or a record of named
fields.  What fits is given in one canonical form: a record as an object of its fields in their
order, a choice as its word.  A record may be written as an object, in which unknown members are
passed over, or as an array of its fields.

The first fault in the order of the text is reported.  A mismatch is placed behind the value that
shows it; inside an object or an array, behind the bracket that closes it if that comes next.
-/
namespace QueryLocator

open JsonFailure

/-- What a text fits: it reads a value inside which so many brackets may still be opened, and gives
the canonical form of the value, or the mismatch if the value has none. -/
abbrev JsonShape :=
  Nat → List Char → Except JsonFailure (Except Mismatch Json × List Char)

namespace JsonShape

open Json

/-- The value fits. -/
def fits (value : Json) (rest : List Char) :
    Except JsonFailure (Except Mismatch Json × List Char) :=
  .ok (.ok value, rest)

/-- What a message calls a value. -/
def foundOf : Json → Found
  | .null => .null
  | .boolean value => .boolean value
  | .number (.integer value) => .integer value
  | .number value => .float value.text
  | .string value => .string value
  | .array _ => .sequence
  | .object _ => .map

/-- Reports that another value was expected than the one that the text begins with. -/
def wrongType {α : Type} (expected : String) (c : Char) (rest : List Char) :
    Except JsonFailure α :=
  if c == '[' then here (.shape (.invalidType .sequence expected)) (c :: rest)
  else if c == '\x7b' then here (.shape (.invalidType .map expected)) (c :: rest)
  else do
    let (value, rest) ← readLeaf c rest
    here (.shape (.invalidType (foundOf value) expected)) rest

/-- A number of 64 bits without a sign. -/
def count : JsonShape := fun _ text =>
  match skipSpace text with
  | [] => here .endInValue []
  | c :: rest =>
    if c == '-' || c.isDigit then do
      match ← readLeaf c rest with
      | (.number (.integer value), rest) =>
        if 0 ≤ value then fits (.number (.integer value)) rest
        else here (.shape (.invalidValue (.integer value) "usize")) rest
      | (value, rest) => here (.shape (.invalidType (foundOf value) "usize")) rest
    else wrongType "usize" c rest

/-- A string. -/
def text : JsonShape := fun _ text =>
  match skipSpace text with
  | [] => here .endInValue []
  | '"' :: rest => do
    let (value, rest) ← readString rest
    fits (.string value) rest
  | c :: rest => wrongType "a string" c rest

/-- Reads the word of a choice, whose opening quote has been read. -/
def readWordOf (words : List String) (text : List Char) :
    Except JsonFailure (String × List Char) := do
  let (word, rest) ← readString text
  if words.contains word then return (word, rest)
  else here (.shape (.unknownVariant word words)) rest

/-- Reads null. -/
def readNull (text : List Char) : Except JsonFailure (List Char) :=
  match skipSpace text with
  | [] => here .endInValue []
  | 'n' :: rest => do
    let ((), rest) ← readWord ['u', 'l', 'l'] rest
    return rest
  | c :: rest => wrongType "unit" c rest

/-- One of some words, alone or as the only key of an object, with null for its value. -/
def choice (words : List String) : JsonShape := fun depth text =>
  match skipSpace text with
  | [] => here .endInValue []
  | '"' :: rest => do
    let (word, rest) ← readWordOf words rest
    fits (.string word) rest
  | '\x7b' :: rest =>
    if depth = 0 then atNext .nestingLimit ('\x7b' :: rest)
    else do
      let (word, rest) ← match skipSpace rest with
        | [] => here .endInValue []
        | '"' :: rest => readWordOf words rest
        | c :: rest => wrongType "variant identifier" c rest
      let ((), rest) ← readColon rest
      let rest ← readNull rest
      match skipSpace rest with
      | [] => here .endInObject []
      | '\x7d' :: rest => fits (.string word) rest
      | rest => here .expectedValue rest
  | rest => atNext .expectedValue rest

/-! ## Values that are passed over -/

/-- Reads over the characters of a string up to its closing quote.  Escapes are looked at, but not at
what they stand for. -/
def skipString : Nat → List Char → Except JsonFailure (List Char)
  | 0, text => here .endInString text
  | _, [] => here .endInString []
  | bound + 1, c :: rest =>
    if c == '"' then .ok rest
    else if c == '\\' then
      match rest with
      | [] => here .endInString []
      | 'u' :: rest => do
        let (_, rest) ← readHex rest
        skipString bound rest
      | d :: more =>
        if (simpleEscape? d).isSome then skipString bound more else atNext .invalidEscape rest
    else if c.toNat < 0x20 then here .controlCharacter (c :: rest)
    else skipString bound rest

/-- Reads over an exponent whose letter has been read. -/
def skipExponent (text : List Char) : Except JsonFailure (List Char) :=
  let text :=
    match text with
    | '+' :: rest | '-' :: rest => rest
    | _ => text
  if startsWithDigit text then .ok (skipDigits text) else atNext .invalidNumber text

/-- Reads over a fraction and an exponent, if they are there. -/
def skipNumberTail (text : List Char) : Except JsonFailure (List Char) :=
  match text with
  | '.' :: rest =>
    if startsWithDigit rest then
      match skipDigits rest with
      | 'e' :: rest | 'E' :: rest => skipExponent rest
      | rest => .ok rest
    else atNext .invalidNumber rest
  | 'e' :: rest | 'E' :: rest => skipExponent rest
  | _ => .ok text

/-- Reads over a number whose sign has been read. -/
def skipNumber (text : List Char) : Except JsonFailure (List Char) :=
  match text with
  | '0' :: rest =>
    if startsWithDigit rest then atNext .invalidNumber rest else skipNumberTail rest
  | _ =>
    if startsWithDigit text then skipNumberTail (skipDigits text) else atNext .invalidNumber text

/-- Reads over a value without parts. -/
def skipLeaf (c : Char) (rest : List Char) : Except JsonFailure (List Char) :=
  if c == 'n' then (readWord ['u', 'l', 'l'] rest).map Prod.snd
  else if c == 't' then (readWord ['r', 'u', 'e'] rest).map Prod.snd
  else if c == 'f' then (readWord ['a', 'l', 's', 'e'] rest).map Prod.snd
  else if c == '-' then skipNumber rest
  else if c.isDigit then skipNumber (c :: rest)
  else if c == '"' then skipString (rest.length + 1) rest
  else atNext .expectedValue (c :: rest)

/-- An array or an object that has been opened. -/
inductive Opened where
  | array
  | object
  deriving DecidableEq, Repr

/-- The bracket that closes an array or an object. -/
def Opened.closing : Opened → Char
  | array => ']'
  | object => '\x7d'

/-- The fault of a text that ends inside an array or an object. -/
def Opened.unclosed : Opened → JsonFault
  | array => .endInList
  | object => .endInObject

/-- The fault of a text that goes on wrongly inside an array or an object. -/
def Opened.unseparated : Opened → JsonFault
  | array => .expectedItem
  | object => .expectedMember

/-- What comes next after something has been passed over. -/
inductive Onward where
  /-- An item or a member inside the opened brackets. -/
  | inside (opened : List Opened)
  /-- The value has ended. -/
  | done

/-- Goes behind closing brackets and a comma, up to the next value or to the end of the outermost
one.  Directly behind an opening bracket there is no comma. -/
def skipClosings (comma : Bool) : List Opened → Nat → List Char →
    Except JsonFailure (Onward × List Char)
  | [], _, text => .ok (.done, text)
  | opened, 0, text => .ok (.inside opened, text)
  | opened :: outer, bound + 1, text =>
    match skipSpace text with
    | [] => here opened.unclosed []
    | c :: rest =>
      if c == ',' && comma then .ok (.inside (opened :: outer), rest)
      else if c == opened.closing then skipClosings true outer bound rest
      else if comma then atNext opened.unseparated (c :: rest)
      else .ok (.inside (opened :: outer), c :: rest)

/-- Reads over the key of a member and its colon. -/
def skipKey (text : List Char) : Except JsonFailure (List Char) :=
  match skipSpace text with
  | [] => here .endInObject []
  | '"' :: rest => do
    let rest ← skipString (rest.length + 1) rest
    let ((), rest) ← readColon rest
    return rest
  | rest => atNext .keyNotString rest

/-- Reads over a value, however deeply its brackets are nested.  The first argument bounds the number
of parts. -/
def skipParts : Nat → List Opened → List Char → Except JsonFailure (List Char)
  | 0, _, text => here .endInValue text
  | bound + 1, opened, text => do
    let (opened, comma, rest) ← match skipSpace text with
      | [] => here .endInValue []
      | '[' :: rest => .ok (Opened.array :: opened, false, rest)
      | '\x7b' :: rest => .ok (Opened.object :: opened, false, rest)
      | c :: rest => (skipLeaf c rest).map fun rest => (opened, true, rest)
    match ← skipClosings comma opened (rest.length + 1) rest with
    | (.done, rest) => return rest
    | (.inside opened, rest) =>
      let rest ← if opened.head? = some .object then skipKey rest else .ok rest
      skipParts bound opened rest

/-- Reads over a value. -/
def skipValue (text : List Char) : Except JsonFailure (List Char) :=
  skipParts (text.length + 1) [] text

/-! ## Records -/

/-- A field of a record, with the values that stand in for it where it is missing. -/
structure Field where
  name : String
  shape : JsonShape
  /-- Its value when an object does not have it. -/
  inObject : Option Json := none
  /-- Its value when an array ends before it. -/
  inArray : Option Json := none

/-- Goes behind the end of an object if that is what comes next. -/
def pastObjectEnd (text : List Char) : List Char :=
  match skipSpace text with
  | '\x7d' :: rest => rest
  | rest => rest

/-- Goes behind the end of an array, or behind a comma, if that is what comes next. -/
def pastArrayEnd (text : List Char) : List Char :=
  match skipSpace text with
  | ']' :: rest => rest
  | ',' :: rest => skipSpace rest
  | rest => rest

/-- Reads the members of an object into the places of the fields.  The first argument bounds their
number. -/
def readFields (fields : List Field) (depth : Nat) :
    Nat → Bool → List (Option Json) → List Char → Except JsonFailure (List (Option Json) × List Char)
  | 0, _, _, text => here .endInObject text
  | bound + 1, first, found, text => do
    let (more, rest) ← nextKey first text
    if more then
      let (key, rest) ← readString rest
      match fields.findIdx? (·.name = key) with
      | none =>
        let ((), rest) ← readColon rest
        let rest ← skipValue rest
        readFields fields depth bound false found rest
      | some place =>
        if (found[place]?.join).isSome then
          here (.shape (.duplicateField key)) (pastObjectEnd rest)
        else
          let ((), rest) ← readColon rest
          match fields[place]? with
          | none => readFields fields depth bound false found rest
          | some field =>
            match ← field.shape depth rest with
            | (.ok value, rest) =>
              readFields fields depth bound false (found.set place (some value)) rest
            | (.error mismatch, rest) => here (.shape mismatch) (pastObjectEnd rest)
    else return (found, rest)

/-- The members of a record; a field that is missing has to have a value that stands in for it. -/
def complete : List Field → List (Option Json) → Except Mismatch (List (String × Json))
  | [], _ => .ok []
  | field :: fields, found =>
    match found.head?.join.or field.inObject with
    | none => .error (.missingField field.name)
    | some value => (complete fields found.tail).map fun members => (field.name, value) :: members

/-- What a message says about the size of a record. -/
def sizeText (name : String) (total : Nat) : String :=
  let unit := if total = 1 then "element" else "elements"
  s!"struct {name} with {total} {unit}"

/-- Reads the fields of a record from an array.  A field is missing once the array has ended. -/
def readPlaces (name : String) (total depth : Nat) :
    List Field → Bool → Bool → List Char → Except JsonFailure (List (String × Json) × Bool × List Char)
  | [], _, ended, text => .ok ([], ended, text)
  | field :: fields, first, ended, text => do
    let (more, rest) ← if ended then .ok (false, text) else nextItem first text
    if more then
      match ← field.shape depth rest with
      | (.ok value, rest) =>
        let (members, ended, rest) ← readPlaces name total depth fields false false rest
        return ((field.name, value) :: members, ended, rest)
      | (.error mismatch, rest) => here (.shape mismatch) (pastArrayEnd rest)
    else
      match field.inArray with
      | some value =>
        let (members, ended, rest) ← readPlaces name total depth fields false true rest
        return ((field.name, value) :: members, ended, rest)
      | none =>
        here (.shape (.invalidLength (total - fields.length - 1) (sizeText name total))) rest

/-- Reads the end of an array that holds a record. -/
def readArrayEnd (text : List Char) : Except JsonFailure (List Char) :=
  match skipSpace text with
  | [] => here .endInList []
  | ']' :: rest => .ok rest
  | ',' :: rest =>
    match skipSpace rest with
    | ']' :: rest => atNext .trailingComma (']' :: rest)
    | rest => atNext .trailingCharacters rest
  | rest => atNext .trailingCharacters rest

/-- A record of named fields, as an object or as an array. -/
def record (name : String) (fields : List Field) : JsonShape := fun depth text =>
  match skipSpace text with
  | [] => here .endInValue []
  | c :: rest =>
    if c == '[' then
      match depth with
      | 0 => atNext .nestingLimit (c :: rest)
      | depth + 1 => do
        let (members, ended, rest) ← readPlaces name fields.length depth fields true false rest
        let rest ← if ended then .ok rest else readArrayEnd rest
        fits (.object members) rest
    else if c == '\x7b' then
      match depth with
      | 0 => atNext .nestingLimit (c :: rest)
      | depth + 1 => do
        let (found, rest) ←
          readFields fields depth (rest.length + 1) true (fields.map fun _ => none) rest
        match complete fields found with
        | .ok members => fits (.object members) rest
        | .error mismatch => here (.shape mismatch) rest
    else wrongType s!"struct {name}" c rest

/-- Null, or an object whose values may be anything. -/
def optionalObject : JsonShape := fun depth text =>
  match skipSpace text with
  | [] => here .endInValue []
  | 'n' :: rest => do
    let ((), rest) ← readWord ['u', 'l', 'l'] rest
    fits .null rest
  | '\x7b' :: rest =>
    match depth with
    | 0 => atNext .nestingLimit ('\x7b' :: rest)
    | depth + 1 => do
      let (members, rest) ← readMembers (readValue depth) (rest.length + 1) true rest
      fits (.object members) rest
  | c :: rest => wrongType "a map" c rest

/-- Any value that passes a test.  It is read whole before it is tested. -/
def oneOf (type : String) (test : Json → Bool) : JsonShape := fun depth text => do
  let (value, rest) ← readValue depth text
  if test value then fits value rest
  else return (.error (.noVariant type), rest)

/-- Reads a whole text against a shape. -/
def readText (shape : JsonShape) (text : List Char) : Except JsonFailure Json := do
  match ← shape nestingLimit text with
  | (.ok value, rest) =>
    readEnd rest
    return value
  | (.error mismatch, _) => unplaced (.shape mismatch)

end JsonShape
end QueryLocator
