/-! # Positions

A cursor position is a line and a column, both counted from zero.  The column counts characters.
-/
namespace QueryLocator

/-- A cursor position: a line, and a column counted in characters, both from zero. -/
structure Position where
  line : Nat
  character : Nat
  deriving DecidableEq, Repr, Inhabited

/-- A position with the names of its parts. -/
def Position.display (position : Position) : String :=
  s!"Position \x7b line: {position.line}, character: {position.character} \x7d"

/-- A stretch of a document between two cursor positions. -/
structure Range where
  start : Position
  stop : Position
  deriving DecidableEq, Repr, Inhabited

/-- The zero-width range at a position. -/
def Range.caret (position : Position) : Range :=
  ⟨position, position⟩

end QueryLocator
