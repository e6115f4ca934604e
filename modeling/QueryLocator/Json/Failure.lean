import QueryLocator.Mismatch
import QueryLocator.Text.Bytes

/-! # Why a JSON text cannot be read

A failure says what is wrong and where.  The place is kept as the number of bytes that were still
unread; a message gives it as a line, counted from one, and a count of bytes on that line.
-/
namespace QueryLocator

open Text

/-- What is wrong with a JSON text. -/
inductive JsonFault where
  | endInValue
  | endInObject
  | endInList
  | endInString
  | expectedValue
  | expectedWord
  | expectedColon
  | expectedMember
  | expectedItem
  | keyNotString
  | trailingComma
  | trailingCharacters
  | invalidNumber
  | numberOutOfRange
  | invalidEscape
  | unfinishedSurrogate
  | loneSurrogate
  | controlCharacter
  /-- Brackets are nested too deeply. -/
  | nestingLimit
  /-- The text is well formed but of the wrong shape. -/
  | shape (mismatch : Mismatch)
  deriving DecidableEq, Repr

/-- The wording of a fault. -/
def JsonFault.message : JsonFault → String
  | endInValue => "EOF while parsing a value"
  | endInObject => "EOF while parsing an object"
  | endInList => "EOF while parsing a list"
  | endInString => "EOF while parsing a string"
  | expectedValue => "expected value"
  | expectedWord => "expected ident"
  | expectedColon => "expected `:`"
  | expectedMember => "expected `,` or `\x7d`"
  | expectedItem => "expected `,` or `]`"
  | keyNotString => "key must be a string"
  | trailingComma => "trailing comma"
  | trailingCharacters => "trailing characters"
  | invalidNumber => "invalid number"
  | numberOutOfRange => "number out of range"
  | invalidEscape => "invalid escape"
  | unfinishedSurrogate => "unexpected end of hex escape"
  | loneSurrogate => "lone leading surrogate in hex escape"
  | controlCharacter => "control character (\\u0000-\\u001F) found while parsing a string"
  | nestingLimit => "recursion limit exceeded"
  | shape mismatch => mismatch.message

/-- A fault with its place: the number of bytes still unread.  A fault without a place concerns a
whole value; what holds the value gives it one. -/
structure JsonFailure where
  fault : JsonFault
  left : Option Nat
  deriving DecidableEq, Repr

namespace JsonFailure

/-- A failure behind everything read so far. -/
def here {α : Type} (fault : JsonFault) (rest : List Char) : Except JsonFailure α :=
  .error ⟨fault, some (byteSize rest)⟩

/-- A failure that counts the next byte in, if there is one. -/
def atNext {α : Type} (fault : JsonFault) (rest : List Char) : Except JsonFailure α :=
  .error ⟨fault, some (byteSize rest - 1)⟩

/-- A failure without a place. -/
def unplaced {α : Type} (fault : JsonFault) : Except JsonFailure α :=
  .error ⟨fault, none⟩

/-- The line of a byte offset, from one, and the number of bytes before it on that line. -/
def lineColumn (text : List Char) (offset : Nat) : Nat × Nat :=
  let before := takeBytes offset text
  let lineStart := byteSize before - byteSize (before.reverse.takeWhile (· != '\n'))
  (before.count '\n' + 1, offset - lineStart)

/-- The failure in one line, for the text it is about. -/
def message (failure : JsonFailure) (text : List Char) : String :=
  match failure.left with
  | none => failure.fault.message
  | some left =>
    let (line, column) := lineColumn text (byteSize text - left)
    s!"{failure.fault.message} at line {line} column {column}"

end JsonFailure
end QueryLocator
