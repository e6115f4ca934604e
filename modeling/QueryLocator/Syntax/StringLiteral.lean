import QueryLocator.Syntax.Lexeme

/-! # String literals

A string stands between quotes on one line, a block string between triple quotes.  A fault inside a
string does not end it: the literal is read to its closing quote, and the last fault found makes the
whole literal a faulty piece.
-/
namespace QueryLocator.Syntax

/-- The value of a hexadecimal digit. -/
def hexValue? (c : Char) : Option Nat :=
  if c.isDigit then some (c.toNat - 0x30)
  else if 'a' ≤ c ∧ c ≤ 'f' then some (c.toNat - 0x61 + 10)
  else if 'A' ≤ c ∧ c ≤ 'F' then some (c.toNat - 0x41 + 10)
  else none

/-- The first half of a surrogate pair. -/
def isLeadingSurrogate (n : Nat) : Bool :=
  0xD800 ≤ n && n ≤ 0xDBFF

/-- The second half of a surrogate pair. -/
def isTrailingSurrogate (n : Nat) : Bool :=
  0xDC00 ≤ n && n ≤ 0xDFFF

/-- Whether a number is a Unicode scalar value. -/
def isScalarValue (n : Nat) : Bool :=
  n ≤ 0x10FFFF && !isLeadingSurrogate n && !isTrailingSurrogate n

/-- Where a reader stands inside a string. -/
inductive StringState where
  /-- Among ordinary characters. -/
  | plain
  /-- After a backslash. -/
  | escape
  /-- Inside the four digits of a Unicode escape: how many have been read and their value.  A paired
  escape follows the first half of a surrogate pair. -/
  | digits (count value : Nat) (paired : Bool)
  /-- Between the braces of a Unicode escape: the value of the digits, if any have been read. -/
  | braces (value : Option Nat)
  /-- After the first half of a surrogate pair. -/
  | pair
  /-- After the backslash that follows the first half of a surrogate pair. -/
  | pairEscape
  deriving DecidableEq, Repr

/-- What the next character of a string leads to, with the fault that it brings, if any. -/
inductive StringStep where
  | continue (state : StringState) (fault : Option LexFault)
  | close (fault : Option LexFault)

namespace StringState

/-- The step after the fourth digit of a Unicode escape. -/
def afterDigits (value : Nat) (paired : Bool) : StringStep :=
  if paired then
    .continue plain (if isTrailingSurrogate value then none else some .unpairedSurrogate)
  else if isLeadingSurrogate value then .continue pair none
  else .continue plain (if isTrailingSurrogate value then some .unpairedSurrogate else none)

/-- The step that a character takes. -/
def step (c : Char) : StringState → StringStep
  | plain =>
    if c == '"' then .close none
    else if c == '\\' then .continue escape none
    else .continue plain (if c == '\n' || c == '\r' then some .lineTerminator else none)
  | escape =>
    if c == 'u' then .continue (digits 0 0 false) none
    else .continue plain
      (if ['"', '\\', '/', 'b', 'f', 'n', 'r', 't'].contains c then none
        else some .escapedCharacter)
  | digits count value paired =>
    match hexValue? c with
    | some digit =>
      let value := value * 16 + digit
      if count + 1 < 4 then .continue (digits (count + 1) value paired) none
      else afterDigits value paired
    | none =>
      if c == '\x7b' && count == 0 && !paired then .continue (braces none) none
      else if c == '"' then .close (some .incompleteUnicode)
      else .continue plain (some .invalidUnicode)
  | braces value =>
    match hexValue? c with
    | some digit => .continue (braces (some (min (value.getD 0 * 16 + digit) 0xFFFFFFFF))) none
    | none =>
      if c == '\x7d' then
        .continue plain (if value.any isScalarValue then none else some .notScalarValue)
      else if c == '"' then .close (some .incompleteUnicode)
      else .continue plain (some .invalidUnicode)
  | pair =>
    if c == '\\' then .continue pairEscape none
    else if c == '"' then .close (some .unpairedSurrogate)
    else .continue plain (some .unpairedSurrogate)
  | pairEscape =>
    if c == 'u' then .continue (digits 0 0 true) none
    else .continue plain (some .unpairedSurrogate)

/-- Reads the rest of a string, `further` characters of which have been read already.  A later fault
takes the place of an earlier one. -/
def read (state : StringState) (fault : Option LexFault) (further : Nat) : List Char → Cut
  | [] => ⟨.error .unterminatedString, further⟩
  | c :: rest =>
    match state.step c with
    | .continue next found => read next (found.or fault) (further + 1) rest
    | .close found =>
      match found.or fault with
      | none => ⟨.ok .string, further + 1⟩
      | some fault => ⟨.error fault, further + 1⟩

end StringState

/-- Where a reader stands inside a block string. -/
inductive BlockState where
  | plain
  /-- After so many quotes that may be the first of the closing ones. -/
  | quotes (count : Nat)
  /-- After one or more backslashes. -/
  | escape
  /-- Behind an escaped quote, where up to so many more quotes belong to the content. -/
  | escapedQuotes (left : Nat)
  deriving DecidableEq, Repr

namespace BlockState

/-- The state after a character, or nothing when the character closes the block string. -/
def step (c : Char) : BlockState → Option BlockState
  | quotes count =>
    if c == '"' then (if count < 2 then some (quotes (count + 1)) else none)
    else some (if c == '\\' then escape else plain)
  | escape =>
    if c == '\\' then some escape
    else if c == '"' then some (escapedQuotes 2)
    else some plain
  | escapedQuotes (left + 1) =>
    if c == '"' then some (escapedQuotes left)
    else some (if c == '\\' then escape else plain)
  | plain | escapedQuotes 0 =>
    if c == '"' then some (quotes 1)
    else some (if c == '\\' then escape else plain)

/-- Reads the rest of a block string, `further` characters of which have been read already. -/
def read (state : BlockState) (further : Nat) : List Char → Cut
  | [] => ⟨.error .unterminatedString, further⟩
  | c :: rest =>
    match state.step c with
    | some next => read next (further + 1) rest
    | none => ⟨.ok .string, further + 1⟩

end BlockState

/-- Reads what follows an opening quote.  The first character of a string may be a line terminator
without fault. -/
def stringLiteral : List Char → Cut
  | [] => ⟨.error .stringEnd, 0⟩
  | '"' :: '"' :: rest => BlockState.plain.read 2 rest
  | '"' :: _ => ⟨.ok .string, 1⟩
  | '\\' :: rest => StringState.escape.read none 1 rest
  | _ :: rest => StringState.plain.read none 1 rest

end QueryLocator.Syntax
