import QueryLocator.Yaml.Failure

/-! # Moving through a YAML text

A cursor is what is left of a text together with the place where it begins.  A line ends at a
carriage return, a line feed, both together, a next-line character, or a line or paragraph
separator.
-/
namespace QueryLocator.Yaml

/-- What is left of a text, and its place. -/
structure Cursor where
  rest : List Char
  mark : Mark
  deriving Inhabited

/-- A space or a tab. -/
def isBlank (c : Char) : Bool :=
  c == ' ' || c == '\t'

/-- A character that ends a line. -/
def isBreak (c : Char) : Bool :=
  c == '\r' || c == '\n' || c == '\u0085' || c == '\u2028' || c == '\u2029'

/-- A letter, a digit, a hyphen or an underscore. -/
def isWord (c : Char) : Bool :=
  c.isAlphanum || c == '_' || c == '-'

/-- The value of a hexadecimal digit. -/
def hexValue? (c : Char) : Option Nat :=
  if c.isDigit then some (c.toNat - 0x30)
  else if 'a' ≤ c ∧ c ≤ 'f' then some (c.toNat - 0x61 + 10)
  else if 'A' ≤ c ∧ c ≤ 'F' then some (c.toNat - 0x41 + 10)
  else none

namespace Cursor

/-- The beginning of a text. -/
def start (text : List Char) : Cursor :=
  ⟨text, ⟨0, 0, 0⟩⟩

variable (cursor : Cursor)

/-- The next character. -/
def peek? : Option Char :=
  cursor.rest.head?

/-- The character so many places ahead. -/
def peekAt? (n : Nat) : Option Char :=
  cursor.rest[n]?

/-- Whether the character so many places ahead is the given one. -/
def looksAt (n : Nat) (c : Char) : Bool :=
  cursor.rest[n]? == some c

/-- Whether the next character is the given one. -/
def isAt (c : Char) : Bool :=
  cursor.peek? == some c

/-- Whether the text has ended. -/
def atEnd : Bool :=
  cursor.rest.isEmpty

/-- Whether the next character is a space or a tab. -/
def atBlank : Bool :=
  cursor.peek?.any isBlank

/-- Whether the next character ends a line. -/
def atBreak : Bool :=
  cursor.peek?.any isBreak

/-- Whether a line or the text ends here. -/
def atBreakOrEnd : Bool :=
  cursor.peek?.all isBreak

/-- Whether there is white space, or the end of the text, so many places ahead. -/
def blankOrEndAt (n : Nat) : Bool :=
  (cursor.peekAt? n).all fun c => isBlank c || isBreak c

/-- The column of the cursor. -/
def column : Nat :=
  cursor.mark.column

/-- Moves on by one character of the line. -/
def advance : Cursor :=
  match cursor.rest with
  | [] => cursor
  | _ :: rest =>
    ⟨rest, ⟨cursor.mark.index + 1, cursor.mark.line, cursor.mark.column + 1⟩⟩

/-- Moves on by so many characters of the line. -/
def advanceBy (n : Nat) : Cursor :=
  n.repeat advance cursor

/-- Moves behind the end of the line, if it is here. -/
def advanceLine : Cursor :=
  match cursor.rest with
  | '\r' :: '\n' :: rest => ⟨rest, ⟨cursor.mark.index + 2, cursor.mark.line + 1, 0⟩⟩
  | c :: rest => if isBreak c then ⟨rest, ⟨cursor.mark.index + 1, cursor.mark.line + 1, 0⟩⟩ else cursor
  | [] => cursor

/-- How the end of the line that is here counts in a text: the separators as themselves, all others as
a line feed. -/
def lineBreak : List Char :=
  match cursor.rest with
  | c :: _ =>
    if c == '\u2028' || c == '\u2029' then [c] else if isBreak c then ['\n'] else []
  | [] => []

/-- The characters of the line from here on that pass a test. -/
def takeWhile (test : Char → Bool) : List Char :=
  cursor.rest.takeWhile test

/-- Moves on over the characters of the line that pass a test. -/
def skipWhile (test : Char → Bool) : Cursor :=
  let count := (cursor.rest.takeWhile test).length
  ⟨cursor.rest.drop count,
    ⟨cursor.mark.index + count, cursor.mark.line, cursor.mark.column + count⟩⟩

/-- Moves on over spaces and tabs. -/
def skipBlanks : Cursor :=
  cursor.skipWhile isBlank

/-- Moves on to the end of the line if a comment begins here. -/
def skipComment : Cursor :=
  if cursor.isAt '#' then cursor.skipWhile fun c => !isBreak c else cursor

/-- Whether a line of three given characters marks a document here. -/
def atDocumentMark (c : Char) : Bool :=
  cursor.column == 0 && cursor.looksAt 0 c && cursor.looksAt 1 c && cursor.looksAt 2 c &&
    cursor.blankOrEndAt 3

/-- Whether a document begins or ends here. -/
def atDocumentEdge : Bool :=
  cursor.atDocumentMark '-' || cursor.atDocumentMark '.'

/-- Reports a problem that shows here. -/
def fail {α : Type} (problem : Problem) (activity : Activity) (since : Mark) : Except Failure α :=
  .error (.syntactic problem cursor.mark (some (activity, since)))

end Cursor
end QueryLocator.Yaml
