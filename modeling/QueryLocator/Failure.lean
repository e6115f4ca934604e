import QueryLocator.Diagnostic
import QueryLocator.Document
import QueryLocator.LineIndex
import QueryLocator.Log

/-! # Why a cursor position cannot be resolved

Either the position names a line that the document does not have, or the document does not parse.
That a position lies outside every definition is no failure.
-/
namespace QueryLocator

/-- The diagnostics of a parse failure: one for each error, at the position that the text has for
its offset. -/
def ParseFailure.diagnostics (failure : ParseFailure) (text : String) : List Diagnostic :=
  let index := LineIndex.ofText text
  failure.errors.map fun error =>
    .errorAt (index.position error.offset) error.message Diagnostic.parserSource

/-- Why a position could not be resolved. -/
inductive ResolveFailure where
  | invalidPosition (line lineCount : Nat)
  | parse (failure : ParseFailure)
  deriving DecidableEq, Repr

namespace ResolveFailure

/-- The failure in one line. -/
def message : ResolveFailure → String
  | invalidPosition line lineCount =>
    s!"Invalid position: line {line} is out of range (document has {lineCount} lines)"
  | parse failure => failure.message

/-- The failure as diagnostics.  A line that does not exist is reported where it would start. -/
def diagnostics (failure : ResolveFailure) (text : String) : List Diagnostic :=
  match failure with
  | invalidPosition line _ =>
    [.errorAt ⟨line, 0⟩ failure.message Diagnostic.consoleSource]
  | parse failure => failure.diagnostics text

/-- What is logged when a position cannot be resolved.  A text that does not parse is often still being
written; a line that does not exist shows that text and position do not belong together. -/
def logEntry (failure : ResolveFailure) (position : Position) : LogEntry :=
  match failure with
  | parse _ => ⟨.warning, "Couldn't parse query document", [("error", failure.message)]⟩
  | invalidPosition .. =>
    ⟨.error, "Cursor position does not match the document",
      [("error", failure.message), ("position", position.display)]⟩

end ResolveFailure

/-- The byte offset of a position.  The line has to exist. -/
def LineIndex.offset (index : LineIndex) (position : Position) : Except ResolveFailure Nat :=
  match index.offset? position with
  | some offset => .ok offset
  | none => .error (.invalidPosition position.line index.lineCount)

end QueryLocator
