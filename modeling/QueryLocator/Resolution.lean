import QueryLocator.CursorToken
import QueryLocator.Selector

/-! # Resolving a cursor position

A position resolves to the explorer node of the definition that contains the token under it.
-/
namespace QueryLocator

/-- The explorer node of a definition. -/
structure Target where
  kind : DefinitionKind
  name : String
  selector : String
  /-- Where the definition stands. -/
  span : Span
  deriving DecidableEq, Repr

/-- The node of a definition that stands at a span. -/
def Definition.target (definition : Definition) (scope : Namespace) (span : Span) : Target :=
  let classification := definition.classify
  { kind := classification.kind
    name := classification.name
    selector := scope.selector classification.kind classification.name
    span }

/-- What a position resolves to. -/
inductive Resolution where
  | found (target : Target)
  /-- The position lies outside every definition. -/
  | notFound
  deriving DecidableEq, Repr

/-- Resolves a position in a document that has been parsed from the text already. -/
def Document.resolve (document : Document) (tokenizer : Tokenizer) (scope : Namespace)
    (text : String) (position : Position) : Except ResolveFailure Resolution := do
  let span ← tokenSpanAt tokenizer text position
  match document.locate span with
  | none => return .notFound
  | some definition =>
    return .found (definition.target scope (definition.span?.getD span))

/-- Parses a text and resolves a position in it.  A text that does not parse fails whatever the
position is. -/
def resolve (tokenizer : Tokenizer) (scope : Namespace) (text : String) (position : Position) :
    Except ResolveFailure Resolution :=
  match Document.parse text with
  | .error failure => .error (.parse failure)
  | .ok document => document.resolve tokenizer scope text position

/-- The nodes of all definitions that have a span, in source order. -/
def Document.outline (document : Document) (scope : Namespace) : List Target :=
  document.definitions.filterMap fun definition =>
    definition.span?.map (definition.target scope)

end QueryLocator
