import QueryLocator.Syntax.Reading

/-! # Names, values, arguments, directives and types

The parts that executable definitions and type definitions share.  Every rule that opens a bracket
takes the number of brackets that may still be opened inside one another; when none is left it
reports that instead of reading on.
-/
namespace QueryLocator.Syntax

open Reading Rule

/-- How many brackets may be open inside one another. -/
def nestingLimit : Nat := 500

/-- A name. -/
def name : Rule :=
  branch (isAt .name) bump (report (.expected "a Name"))

/-- A name, or the fault that is reported in its place. -/
def nameOr (fault : GrammarFault) : Rule :=
  branch (isAt .name) name (report fault)

/-- The words that are values themselves and no names of enum values. -/
def isLiteralWord (s : Reading) : Bool :=
  s.isWord "true" || s.isWord "false" || s.isWord "null"

/-- The name of an enum value. -/
def enumValue : Rule :=
  branch (isAt .name)
    (seq [optional isLiteralWord (report .literalAsEnumValue), name])
    (report (.expected "Enum Value"))

/-- A variable; its first token is taken whatever it is. -/
def variableName : Rule :=
  seq [bump, name]

/-- Whether a faulty value is taken or left where it stands. -/
inductive OnFault where
  | take
  | leave

/-- Reports a fault, and takes the token if that is asked for. -/
def OnFault.rule (onFault : OnFault) (fault : GrammarFault) : Rule :=
  match onFault with
  | .take => refuse fault
  | .leave => report fault

/-- The items of a list, up to its closing bracket or the end of the document.  With no item rule
the brackets are nested too deeply. -/
def listItems (item : Option Rule) : Nat → Rule
  | 0 => id
  | bound + 1 => fun s =>
    match s.current? with
    | none => s
    | some _ =>
      if s.isAt .rightBracket then s.bump
      else if s.isAt .endOfText then s
      else match item with
        | none => s.overLimit
        | some item => listItems (some item) bound (item s)

/-- A list; its opening bracket is current. -/
def listWith (item : Option Rule) : Rule := fun s =>
  let s := s.bump
  listItems item (s.ahead.length + 1) s

/-- A field of an object value.  The colon and the value behind it may be left out. -/
def objectFieldWith (item : Option Rule) : Rule :=
  seq [name, optional (isAt .colon) (seq [bump, item.getD overLimit])]

/-- An object value; its opening brace is current. -/
def objectWith (item : Option Rule) : Rule :=
  seq [bump, whileAt (isAt .name) (objectFieldWith item), expect .rightBrace]

/-- A value.  A constant value holds no variable. -/
def value (constant : Bool) (onFault : OnFault) (depth : Nat) : Rule :=
  let inner : Option Rule :=
    match depth with
    | 0 => none
    | depth + 1 => some (value constant .take depth)
  branch (isAt .dollar)
    (seq [if constant then onFault.rule .variableInConstant else id, variableName]) <|
  branch (fun s => s.isAt .int || s.isAt .float || s.isAt .string) bump <|
  branch (isAt .name) (branch isLiteralWord bump enumValue) <|
  branch (isAt .leftBracket) (listWith inner) <|
  branch (isAt .leftBrace) (objectWith inner)
    (onFault.rule (.expected "a valid Value"))

/-- An argument.  The colon and the value behind it may be left out. -/
def argument (constant : Bool) (depth : Nat) : Rule :=
  seq [name, optional (isAt .colon) (seq [bump, value constant .leave depth])]

/-- Arguments; the opening parenthesis is current. -/
def arguments (constant : Bool) (depth : Nat) : Rule :=
  seq [bump, oneOrMore (isAt .name) (argument constant depth) (.expected "an Argument"),
    expect .rightParen]

/-- A directive. -/
def directive (constant : Bool) (depth : Nat) : Rule :=
  seq [expect .atSign, name, optional (isAt .leftParen) (arguments constant depth)]

/-- The directives that stand here, if any. -/
def directives (constant : Bool) (depth : Nat) : Rule :=
  whileAt (isAt .atSign) (directive constant depth)

/-- Whether a type begins here. -/
def isAtType (s : Reading) : Bool :=
  s.isAt .name || s.isAt .leftBracket

/-- What follows a type: an exclamation mark makes it a type without null. -/
def nonNull : Rule :=
  seq [skip, optional (isAt .bang) take, skip]

/-- The rest of a list type, whose item type is read by the given rule.  A token that begins no item
type is dropped from the reading. -/
def listTypeWith (item : Rule) : Rule := fun s =>
  let s := s.bump
  let s :=
    if isAtType s then item s
    else match s.ahead with
      | [] => s
      | lexeme :: rest =>
        settle (reportAt lexeme.offset (.expected "item type") { s with ahead := rest })
  s.expect .rightBracket

/-- A type; its first token is current. -/
def typeReference : Nat → Rule
  | 0 => branch (isAt .leftBracket) (seq [bump, overLimit]) (seq [take, nonNull])
  | depth + 1 =>
    branch (isAt .leftBracket) (seq [listTypeWith (typeReference depth), nonNull])
      (seq [take, nonNull])

/-- A default value. -/
def defaultValue (depth : Nat) : Rule :=
  seq [bump, value true .leave depth]

/-- The type of a variable or an argument, with what may stand behind it. -/
def typeWithDefault (depth : Nat) : Rule :=
  branch isAtType
    (seq [typeReference depth, optional (isAt .equals) (defaultValue depth),
      directives true depth])
    (report (.expected "a Type"))

end QueryLocator.Syntax
