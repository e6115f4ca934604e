import QueryLocator.Position

/-! # Diagnostics

Messages that an editor shows beside a document.
-/
namespace QueryLocator

/-- How grave a diagnostic is. -/
inductive Severity where
  | error
  deriving DecidableEq, Repr

/-- A message about a stretch of a document. -/
structure Diagnostic where
  severity : Severity
  range : Range
  message : String
  /-- The component that reports it. -/
  source : String
  deriving DecidableEq, Repr

/-- The source of diagnostics about syntax errors. -/
def Diagnostic.parserSource : String := "graphql-parser"

/-- The source of all other diagnostics. -/
def Diagnostic.consoleSource : String := "graphql-console"

/-- An error at a position. -/
def Diagnostic.errorAt (position : Position) (message source : String) : Diagnostic :=
  ⟨.error, .caret position, message, source⟩

end QueryLocator
