import QueryLocator.Syntax.Value

/-! # Definitions and extensions of the type system

Schemas, scalars, objects, interfaces, unions, enums, input objects and directives.  Their content
does not matter to the explorer; a document that holds them has to be well formed all the same.
-/
namespace QueryLocator.Syntax

open Reading Rule

/-- A description and a keyword in front of a definition, each if it is there. -/
def opening (keyword : String) : Rule :=
  seq [optional (isAt .string) bump, optional (isWord keyword) bump]

/-- A description, if there is one. -/
def description : Rule :=
  optional (isAt .string) bump

/-- Whether a member begins here: its name, or a description of it. -/
def isAtMember (s : Reading) : Bool :=
  s.isAt .name || s.isAt .string

/-- Directives without variables. -/
def constantDirectives : Rule :=
  directives true nestingLimit

/-- The definition of an argument or of an input field. -/
def inputValue : Rule :=
  seq [description, name,
    branch (isAt .colon) (seq [bump, typeWithDefault nestingLimit])
      (report (.expected "a Name"))]

/-- Members between two brackets, of which there has to be one at least. -/
def members (member : Rule) (what : String) (closing : TokenKind) : Rule :=
  seq [bump, oneOrMore isAtMember member (.expected what), expect closing]

/-- The arguments that a field or a directive is defined with. -/
def argumentDefinitions : Rule :=
  members inputValue "an Argument Definition" .rightParen

/-- The fields of an input object. -/
def inputFields : Rule :=
  members inputValue "an Input Value Definition" .rightBrace

/-- The definition of a field. -/
def fieldDefinition : Rule :=
  seq [description, name,
    optional (isAt .leftParen) argumentDefinitions,
    branch (isAt .colon)
      (seq [bump,
        branch isAtType (seq [typeReference nestingLimit, constantDirectives])
          (report (.expected "a Type"))])
      (report (.expected "a type"))]

/-- The fields of an object type or an interface. -/
def fieldDefinitions : Rule :=
  members fieldDefinition "Field Definition" .rightBrace

/-- The definition of an enum value. -/
def enumValueDefinition : Rule :=
  seq [description, enumValue, constantDirectives]

/-- The values of an enum. -/
def enumValueDefinitions : Rule :=
  members enumValueDefinition "Enum Value Definition" .rightBrace

/-- The interfaces that a type implements; the keyword is current. -/
def implementedInterfaces : Rule :=
  seq [bump, separated .ampersand (nameOr (.expected "an Interface name"))]

/-- The members of a union; the equals sign is current. -/
def unionMembers : Rule :=
  seq [bump, separated .bar (nameOr (.expected "Union Member Type"))]

/-- The places where a directive may be written. -/
def directiveLocations : List String :=
  ["QUERY", "MUTATION", "SUBSCRIPTION", "FIELD", "FRAGMENT_DEFINITION", "FRAGMENT_SPREAD",
    "INLINE_FRAGMENT", "VARIABLE_DEFINITION", "SCHEMA", "SCALAR", "OBJECT", "FIELD_DEFINITION",
    "ARGUMENT_DEFINITION", "INTERFACE", "UNION", "ENUM", "ENUM_VALUE", "INPUT_OBJECT",
    "INPUT_FIELD_DEFINITION"]

/-- A place where a directive may be written. -/
def directiveLocation : Rule :=
  branch (isAt .name)
    (branch (fun s => directiveLocations.any s.isWord) bump
      (report (.expected "valid Directive Location")))
    (report (.expected "Directive Location"))

/-- The definition of a directive. -/
def directiveDefinition : Rule :=
  seq [opening "directive",
    branch (isAt .atSign) bump (report (.expected "@ symbol")),
    name,
    optional (isAt .leftParen) argumentDefinitions,
    optional (isWord "repeatable") bump,
    branch (isWord "on") bump (report (.expected "Directive Locations")),
    branch (fun s => s.isAt .name || s.isAt .bar) (separated .bar directiveLocation)
      (report (.expected "valid Directive Location"))]

/-- The parts that may follow the name of a definition, in their order. -/
abbrev Parts := List ((Reading → Bool) × Rule)

/-- What may follow the name of a scalar. -/
def scalarParts : Parts :=
  [(isAt .atSign, constantDirectives)]

/-- What may follow the name of an object type or an interface. -/
def fieldedParts : Parts :=
  [(isNamed "implements", implementedInterfaces), (isAt .atSign, constantDirectives),
    (isAt .leftBrace, fieldDefinitions)]

/-- What may follow the name of a union. -/
def unionParts : Parts :=
  [(isAt .atSign, constantDirectives), (isAt .equals, unionMembers)]

/-- What may follow the name of an enum. -/
def enumParts : Parts :=
  [(isAt .atSign, constantDirectives), (isAt .leftBrace, enumValueDefinitions)]

/-- What may follow the name of an input object. -/
def inputParts : Parts :=
  [(isAt .atSign, constantDirectives), (isAt .leftBrace, inputFields)]

/-- A definition that is a keyword, a name, and parts that may be left out. -/
def namedDefinition (keyword missingName : String) (parts : Parts) : Rule :=
  seq (opening keyword :: nameOr (.expected missingName) ::
    parts.map fun (test, rule) => optional test rule)

/-- An extension: its two keywords, a name, and parts of which one has to be there. -/
def namedExtension (parts : Parts) (fault : GrammarFault) : Rule :=
  seq [bump, bump, name, someOf parts fault]

/-- The type of a root operation. -/
def rootOperationType : Rule :=
  branch (fun s => s.isWord "query" || s.isWord "subscription" || s.isWord "mutation") bump
    (refuse (.expected "either a 'mutation', a 'query', or a 'subscription'"))

/-- A root operation of a schema and its type, which may be left out behind the colon. -/
def rootOperation : Rule :=
  seq [rootOperationType,
    branch (isAt .colon) (seq [bump, optional (isAt .name) name])
      (report (.expected "a Name Type"))]

/-- The definition of a schema.  Its body may be left out. -/
def schemaDefinition : Rule :=
  seq [opening "schema", constantDirectives,
    optional (isAt .leftBrace)
      (seq [bump,
        oneOrMore (isAt .name) rootOperation
          (.expected "Root Operation Type Definition"),
        expect .rightBrace])]

/-- The extension of a schema, which has to bring a directive or a root operation. -/
def schemaExtension : Rule := fun s =>
  let s := s.bump.bump
  let directed := s.isAt .atSign
  let s := constantDirectives s
  let (s, extended) :=
    if s.isAt .leftBrace then
      let s := s.bump
      (expect .rightBrace (whileAt (isAt .name) rootOperation s), s.isAt .name)
    else (s, false)
  if directed || extended then s
  else s.report (.expected "directives or Root Operation Type Definition")

/-- The definition that a keyword introduces, if it introduces one of the type system. -/
def typeSystemDefinition? : String → Option Rule
  | "directive" => some directiveDefinition
  | "schema" => some schemaDefinition
  | "scalar" => some (namedDefinition "scalar" "a Name" scalarParts)
  | "type" => some (namedDefinition "type" "a name" fieldedParts)
  | "interface" => some (namedDefinition "interface" "a Name" fieldedParts)
  | "union" => some (namedDefinition "union" "a Name" unionParts)
  | "enum" => some (namedDefinition "enum" "a Name" enumParts)
  | "input" => some (namedDefinition "input" "a Name" inputParts)
  | _ => none

/-- The extension that the keyword behind `extend` asks for. -/
def extension? : String → Option Rule
  | "schema" => some schemaExtension
  | "scalar" => some (namedExtension scalarParts (.expected "Directives"))
  | "type" =>
    some (namedExtension fieldedParts
      (.expected "an Implements Interface, Directives or a Fields Definition"))
  | "interface" => some (namedExtension fieldedParts .incompleteInterfaceExtension)
  | "union" => some (namedExtension unionParts (.expected "Directives or Union Member Types"))
  | "enum" =>
    some (namedExtension enumParts (.expected "Directive or Enum Values Definition"))
  | "input" =>
    some (namedExtension inputParts (.expected "Directives or an Input Fields Definition"))
  | _ => none

/-- An extension; the keyword `extend`, or a description in its place, is current. -/
def typeSystemExtension : Rule := fun s =>
  match (s.second?.map fun lexeme => String.ofList lexeme.text).bind extension? with
  | some rule => rule s
  | none => s.refuse .unsuitableExtension

end QueryLocator.Syntax
