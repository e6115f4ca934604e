import QueryLocator.Definition
import QueryLocator.Syntax.Lexing
import QueryLocator.Syntax.Selection
import QueryLocator.Syntax.TypeSystem

/-! # Documents

A document is a sequence of definitions.  Reading one keeps, for each definition, what kind it is
and the tokens it consists of, and for the whole text every lexeme in order.
-/
namespace QueryLocator.Syntax

open Text Reading Rule

/-- What a definition defines. -/
inductive Head where
  | operation (type : OperationType) (name : Option String)
  | fragment (name : Option String) (typeCondition : Option String)
  | typeSystem
  deriving DecidableEq, Repr

/-- A definition as it stands in a text: what it defines, and its lexemes in order. -/
structure DefinitionNode where
  head : Head
  lexemes : List Lexeme

/-- The current token as a name. -/
def nameText? (s : Reading) : Option String :=
  s.name?.map String.ofList

/-- The definition of a variable; the dollar sign is current. -/
def variableDefinition : Rule :=
  seq [variableName,
    branch (isAt .colon) (seq [bump, typeWithDefault nestingLimit])
      (report (.expected "a Name"))]

/-- The variables of an operation; the opening parenthesis is current. -/
def variableDefinitions : Rule :=
  seq [bump,
    oneOrMore (isAt .dollar) variableDefinition (.expected "a Variable Definition"),
    expect .rightParen]

/-- What follows the keyword of an operation. -/
def operationTail : Rule :=
  seq [
    optional (isAt .name) name,
    optional (isAt .leftParen) variableDefinitions,
    optional (isAt .atSign) (directives false nestingLimit),
    branch (isAt .leftBrace) (selectionSet nestingLimit)
      (refuse (.expected "a Selection Set"))]

/-- An operation.  A selection set alone is a query without a name. -/
def operation (type : OperationType) (s : Reading) : Reading × Option Head :=
  if s.isAt .name then
    let s := s.bump
    (operationTail s, some (.operation type (nameText? s)))
  else if s.isAt .leftBrace then
    (selectionSet nestingLimit s, some (.operation .query none))
  else
    (s.refuse (.expected "an Operation Type or a Selection Set"), none)

/-- What follows the name of a fragment. -/
def fragmentTail : Rule :=
  seq [
    typeCondition,
    optional (isAt .atSign) (directives false nestingLimit),
    branch (isAt .leftBrace) (selectionSet nestingLimit)
      (report (.expected "a Selection Set"))]

/-- The type that a fragment applies to, seen from where its condition begins. -/
def conditionText? (s : Reading) : Option String :=
  nameText? (optional (isNamed "on") bump s)

/-- A fragment.  The first token is taken for its keyword. -/
def fragmentDefinition (s : Reading) : Reading × Option Head :=
  let s := s.bump
  let found := if s.isNamed "on" then none else nameText? s
  let s := fragmentName s
  (fragmentTail s, some (.fragment found (conditionText? s)))

/-- The definition that begins with the current token, told apart by the given word. -/
def definitionFor (word : String) (s : Reading) : Reading × Option Head :=
  match word with
  | "\x7b" => operation .query s
  | "fragment" => fragmentDefinition s
  | "extend" => (typeSystemExtension s, some .typeSystem)
  | _ =>
    match OperationType.ofKeyword? word, typeSystemDefinition? word with
    | some type, _ => operation type s
    | none, some rule => (rule s, some .typeSystem)
    | none, none => (s.refuse (.expected "definition"), none)

/-- Reads what begins with the current token.  A description stands in front of a definition, so the
token behind it tells what is defined. -/
def definition (s : Reading) : Reading × Option Head :=
  if s.isAt .string then
    match s.second? with
    | some lexeme => definitionFor (String.ofList lexeme.text) s
    | none => (s.refuse (.expected "a definition after this StringValue"), none)
  else if s.isAt .name || s.isAt .leftBrace then
    definitionFor (String.ofList ((s.current?.map Lexeme.text).getD [])) s
  else
    (s.refuse (.expected "a StringValue, Name or OperationDefinition"), none)

/-- The lexemes that a later reading has taken and an earlier one had not. -/
def takenSince (before after : Reading) : List Lexeme :=
  (after.taken.take (after.taken.length - before.taken.length)).reverse

/-- Reads definitions to the end of the document.  Each takes at least one lexeme, so the number of
lexemes bounds them; were it reached, that would be reported. -/
def definitions : Nat → Reading → List DefinitionNode → Reading × List DefinitionNode
  | 0, s, found => (s.report (.expected "definition"), found.reverse)
  | bound + 1, s, found =>
    if s.ahead.isEmpty || s.isAt .endOfText then (s, found.reverse)
    else
      match definition s with
      | (next, some head) => definitions bound next (⟨head, takenSince s next⟩ :: found)
      | (next, none) => definitions bound next found

/-- What reading a document gives. -/
structure DocumentTree where
  /-- The definitions, in order. -/
  definitions : List DefinitionNode
  /-- The texts of all lexemes that were kept, in order. -/
  texts : List (List Char)
  /-- The errors, in the order in which they were found. -/
  errors : List SyntaxError

/-- The lexemes of a text with the token that marks its end. -/
def markedLexemes (text : List Char) : List Lexeme :=
  lexemes text ++ [⟨.ok .endOfText, [], byteSize text⟩]

/-- Reads a document. -/
def readDocument (text : List Char) : DocumentTree :=
  let s := skip ⟨markedLexemes text, [], [], false⟩
  let s := if s.ahead.isEmpty || s.isAt .endOfText then s.report .emptyDocument else s
  let (s, definitions) := definitions (s.ahead.length + 1) s []
  { definitions
    texts := (s.taken.reverse ++ s.ahead).map Lexeme.text
    errors := s.errors.reverse }

end QueryLocator.Syntax
