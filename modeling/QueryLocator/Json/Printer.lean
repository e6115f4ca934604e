import QueryLocator.Json.Value

/-! # Writing JSON

The compact form has no white space; the pretty form puts every item and member on a line of its own,
two spaces deeper than what holds it.  In strings only quotes, backslashes and control characters
are escaped.
-/
namespace QueryLocator.Json

/-- A hexadecimal digit below sixteen, in lower case. -/
def hexDigit (n : Nat) : Char :=
  Nat.digitChar n

/-- How a character is written inside a string. -/
def escapeChar (c : Char) : List Char :=
  if c == '"' then ['\\', '"']
  else if c == '\\' then ['\\', '\\']
  else if c == '\n' then ['\\', 'n']
  else if c == '\r' then ['\\', 'r']
  else if c == '\t' then ['\\', 't']
  else if c == '\x08' then ['\\', 'b']
  else if c == '\x0c' then ['\\', 'f']
  else if c.toNat < 0x20 then
    ['\\', 'u', '0', '0', hexDigit (c.toNat / 16), hexDigit (c.toNat % 16)]
  else [c]

/-- The text of a string. -/
def stringText (s : String) : List Char :=
  '"' :: s.toList.flatMap escapeChar ++ ['"']

/-- The text of a value without parts, and nothing for others. -/
def leafText : Json → List Char
  | null => ['n', 'u', 'l', 'l']
  | boolean true => ['t', 'r', 'u', 'e']
  | boolean false => ['f', 'a', 'l', 's', 'e']
  | number value => value.text
  | string value => stringText value
  | array _ | object _ => []

mutual

/-- The compact text of a value. -/
def compact : Json → List Char
  | array items => '[' :: compactItems items ++ [']']
  | object members => '\x7b' :: compactMembers members ++ ['\x7d']
  | null => leafText null
  | boolean value => leafText (boolean value)
  | number value => leafText (number value)
  | string value => leafText (string value)

/-- The compact texts of items with commas between them. -/
def compactItems : List Json → List Char
  | [] => []
  | [item] => item.compact
  | item :: rest => item.compact ++ ',' :: compactItems rest

/-- The compact texts of members with commas between them. -/
def compactMembers : List (String × Json) → List Char
  | [] => []
  | [(key, value)] => stringText key ++ ':' :: value.compact
  | (key, value) :: rest => stringText key ++ ':' :: value.compact ++ ',' :: compactMembers rest

end

/-- A new line at a depth. -/
def newLine (depth : Nat) : List Char :=
  '\n' :: List.replicate (2 * depth) ' '

mutual

/-- The pretty text of a value that stands at a depth. -/
def prettyAt (depth : Nat) : Json → List Char
  | array [] => ['[', ']']
  | array (item :: rest) =>
    '[' :: newLine (depth + 1) ++ prettyAt (depth + 1) item ++ prettyItems (depth + 1) rest ++
      newLine depth ++ [']']
  | object [] => ['\x7b', '\x7d']
  | object ((key, value) :: rest) =>
    '\x7b' :: newLine (depth + 1) ++ stringText key ++ ':' :: ' ' :: prettyAt (depth + 1) value ++
      prettyMembers (depth + 1) rest ++ newLine depth ++ ['\x7d']
  | null => leafText null
  | boolean value => leafText (boolean value)
  | number value => leafText (number value)
  | string value => leafText (string value)

/-- The pretty texts of further items, each after a comma. -/
def prettyItems (depth : Nat) : List Json → List Char
  | [] => []
  | item :: rest => ',' :: newLine depth ++ prettyAt depth item ++ prettyItems depth rest

/-- The pretty texts of further members, each after a comma. -/
def prettyMembers (depth : Nat) : List (String × Json) → List Char
  | [] => []
  | (key, value) :: rest =>
    ',' :: newLine depth ++ stringText key ++ ':' :: ' ' :: prettyAt depth value ++
      prettyMembers depth rest

end

/-- The compact text of a value. -/
def render (value : Json) : String :=
  String.ofList value.compact

/-- The pretty text of a value. -/
def renderPretty (value : Json) : String :=
  String.ofList (value.prettyAt 0)

end QueryLocator.Json
