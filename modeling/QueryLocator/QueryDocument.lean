import QueryLocator.Json.Printer
import QueryLocator.Json.Reader
import QueryLocator.Resolution

/-! # Query documents

The query being edited together with its variables.  An edit gives a new document and leaves the old
one as it is.
-/
namespace QueryLocator

/-- Variables as they are kept: set out over lines when they are valid JSON, else as they were
typed. -/
def formatVariables (raw : String) : String :=
  match Json.parse raw with
  | .ok value => value.normalize.renderPretty
  | .error _ => raw

/-- The text of a query and its variables, if any are attached. -/
structure QueryDocument where
  text : String
  variablesText : Option String
  deriving DecidableEq, Repr

namespace QueryDocument

/-- A document without variables. -/
def ofText (text : String) : QueryDocument :=
  ⟨text, none⟩

instance : Inhabited QueryDocument := ⟨ofText ""⟩

/-- The document with another text; the variables stay. -/
def replace (document : QueryDocument) (text : String) : QueryDocument :=
  { document with text }

/-- The document with other variables. -/
def withVariables (document : QueryDocument) (raw : String) : QueryDocument :=
  { document with variablesText := some (formatVariables raw) }

/-- Whether the text is blank. -/
def isBlank (document : QueryDocument) : Bool :=
  Text.isBlank document.text

/-- The text as a document. -/
def parse (document : QueryDocument) : Except ParseFailure Document :=
  Document.parse document.text

/-- Resolves a position in the text. -/
def resolveAt (document : QueryDocument) (tokenizer : Tokenizer) (scope : Namespace)
    (position : Position) : Except ResolveFailure Resolution :=
  resolve tokenizer scope document.text position

/-- The names of the operations that have one; none when the text does not parse. -/
def operationNames (document : QueryDocument) : List String :=
  match document.parse with
  | .ok parsed => parsed.operationNames
  | .error _ => []

end QueryDocument
end QueryLocator
