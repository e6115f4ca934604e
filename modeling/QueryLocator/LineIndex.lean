import QueryLocator.Position
import QueryLocator.Text.Bytes

/-! # Lines of a document

A line index relates byte offsets to the cursor positions of one document.  A line ends at
a line feed, at a carriage return, or at a carriage return followed by a line feed, which counts as
one terminator.  The terminator is not part of the line.

An offset past the end of the document stands for its end, an offset inside a character for the
start of that character, and an offset between the two halves of a terminator for the end of the
line before it.  A column past the end of its line stands for the end of the line.
-/
namespace QueryLocator

open Text

/-- A document together with the byte offsets at which its lines start. -/
structure LineIndex where
  text : List Char
  starts : List Nat
  deriving DecidableEq, Repr

namespace LineIndex

/-- Offsets at which lines start because a terminator ends just before them, for a text that begins
at `offset`.  A carriage return before a line feed ends nothing by itself. -/
def startsFrom (offset : Nat) : List Char → List Nat
  | [] => []
  | c :: rest =>
    let next := offset + c.utf8Size
    if c = '\n' ∨ (c = '\r' ∧ rest.head? ≠ some '\n') then
      next :: startsFrom next rest
    else
      startsFrom next rest

/-- The index of a document.  The first line always starts at offset zero. -/
def ofChars (text : List Char) : LineIndex :=
  ⟨text, 0 :: startsFrom 0 text⟩

/-- The index of a document. -/
def ofText (text : String) : LineIndex :=
  ofChars text.toList

variable (index : LineIndex)

/-- Number of lines.  An empty document has one. -/
def lineCount : Nat :=
  index.starts.length

/-- Byte offset at which a line starts. -/
def lineStart (line : Nat) : Option Nat :=
  index.starts[line]?

/-- Drops one given character from the end, if it is there. -/
def dropLastIf (c : Char) (text : List Char) : List Char :=
  if text.getLast? = some c then text.dropLast else text

/-- A line with its terminator taken off. -/
def dropTerminator (line : List Char) : List Char :=
  dropLastIf '\r' (dropLastIf '\n' line)

/-- The content of a line, without its terminator. -/
def lineText (line : Nat) : Option (List Char) :=
  match index.lineStart line with
  | none => none
  | some start =>
    let stop := (index.lineStart (line + 1)).getD (byteSize index.text)
    some (dropTerminator (slice start stop index.text))

/-- Number of characters of a line, without its terminator. -/
def lineLength (line : Nat) : Option Nat :=
  (index.lineText line).map List.length

/-- The byte offset of a position, or nothing when the document has no such line. -/
def offset? (position : Position) : Option Nat :=
  match index.lineStart position.line, index.lineText position.line with
  | some start, some content => some (start + byteSize (content.take position.character))
  | _, _ => none

/-- The line that an offset belongs to: the last one that starts at or before it. -/
def lineAt (offset : Nat) : Nat :=
  (index.starts.takeWhile (· ≤ offset)).length - 1

/-- The cursor position of a byte offset. -/
def position (offset : Nat) : Position :=
  let offset := snap offset index.text
  let line := index.lineAt offset
  let start := (index.lineStart line).getD 0
  let content := (index.lineText line).getD []
  ⟨line, (takeBytes (offset - start) content).length⟩

end LineIndex
end QueryLocator
