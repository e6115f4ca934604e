import QueryLocator.Definition
import QueryLocator.Syntax.Document
import QueryLocator.Text.Blank

/-! # Parsed documents

A document parses when reading it finds no error; it then is the list of its definitions in source
order.  The span of a definition reaches from its first to its last token that is neither white
space, nor a comma, nor a comment.
-/
namespace QueryLocator

open Text Syntax

/-- A document that could not be parsed, with what was wrong in it. -/
structure ParseFailure where
  errors : List SyntaxError
  deriving DecidableEq, Repr

namespace ParseFailure

/-- The failure of a text that is well formed but defines nothing. -/
def noDefinitions : ParseFailure :=
  ⟨[⟨"document contains no definitions", 0⟩]⟩

/-- The first error and how many more there are. -/
def summary (failure : ParseFailure) : String :=
  match failure.errors with
  | [] => "unknown syntax error"
  | [error] => s!"{error.message} at offset {error.offset}"
  | error :: more => s!"{error.message} at offset {error.offset} (and {more.length} more)"

/-- The failure in one line. -/
def message (failure : ParseFailure) : String :=
  s!"Document parse error: {failure.summary}"

end ParseFailure

/-- Whether the text of a token is insignificant: nothing, a comma, a comment, or white space and
byte order marks only. -/
def isIgnoredText (text : List Char) : Bool :=
  text.isEmpty || text == [','] || text.head? == some '#' ||
    text.all fun c => isBlankChar c || c == '\uFEFF'

/-- The span of a lexeme in its text. -/
def Syntax.Lexeme.span (lexeme : Lexeme) : Span :=
  ⟨lexeme.offset, lexeme.offset + byteSize lexeme.text⟩

/-- The span from the first to the last significant lexeme. -/
def significantSpan? (lexemes : List Lexeme) : Option Span :=
  let significant := lexemes.filter fun lexeme => !isIgnoredText lexeme.text
  match significant.head?, significant.getLast? with
  | some first, some last => some ⟨first.span.start, last.span.stop⟩
  | _, _ => none

/-- A definition without the tokens that it was read from. -/
def Syntax.DefinitionNode.toDefinition (node : DefinitionNode) : Definition :=
  let span := significantSpan? node.lexemes
  match node.head with
  | .operation type name => .operation type name span
  | .fragment name typeCondition => .fragment name typeCondition span
  | .typeSystem => .other span

/-- The definitions of a document, in source order. -/
structure Document where
  definitions : List Definition
  deriving DecidableEq, Repr

namespace Document

/-- Parses a text.  Any error fails the whole document. -/
def parse (text : String) : Except ParseFailure Document :=
  let tree := readDocument text.toList
  if tree.errors.isEmpty then
    if tree.definitions.isEmpty then .error .noDefinitions
    else .ok ⟨tree.definitions.map DefinitionNode.toDefinition⟩
  else .error ⟨tree.errors⟩

/-- The names of the operations that have one, in source order. -/
def operationNames (document : Document) : List String :=
  document.definitions.filterMap Definition.operationName?

/-- The first definition whose span contains a given one.  Definitions without a span are passed
over. -/
def locate (document : Document) (span : Span) : Option Definition :=
  document.definitions.find? fun definition => definition.span?.any (·.contains span)

/-- The place of the first definition whose span contains a given one. -/
def locateIndex (document : Document) (span : Span) : Option Nat :=
  document.definitions.findIdx? fun definition => definition.span?.any (·.contains span)

end Document
end QueryLocator
