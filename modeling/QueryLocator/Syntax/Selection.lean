import QueryLocator.Syntax.Value

/-! # Selections

Selection sets with their fields, fragment spreads and inline fragments.
-/
namespace QueryLocator.Syntax

open Reading Rule

/-- The name of a fragment, which is any name but `on`. -/
def fragmentName : Rule :=
  branch (isNamed "on") (report .fragmentNamedOn) (nameOr (.expected "Fragment Name"))

/-- The type that a fragment applies to. -/
def typeCondition : Rule :=
  seq [branch (isNamed "on") bump (report (.expected "'on'")),
    nameOr (.expected "a Name in Type Condition")]

/-- A field, with an alias or without, whose own selections are read by the given rule. -/
def fieldWith (selections : Rule) (depth : Nat) : Rule :=
  seq [
    optional (secondIs .colon) (seq [name, bump]),
    name,
    optional (isAt .leftParen) (arguments false depth),
    optional (isAt .atSign) (directives false depth),
    optional (isAt .leftBrace) selections]

/-- A fragment spread. -/
def fragmentSpread (depth : Nat) : Rule :=
  seq [
    bump,
    branch (isAt .name) fragmentName (report (.expected "a Name")),
    optional (isAt .atSign) (directives false depth)]

/-- An inline fragment. -/
def inlineFragmentWith (selections : Rule) (depth : Nat) : Rule :=
  seq [
    bump,
    optional (isAt .name) typeCondition,
    optional (isAt .atSign) (directives false depth),
    branch (isAt .leftBrace) selections (report (.expected "Selection Set"))]

/-- Whether the three dots that are current begin a fragment spread: a name other than `on` follows
them. -/
def isSpread (s : Reading) : Bool :=
  match s.second? with
  | some ⟨.ok .name, text, _⟩ => text != ['o', 'n']
  | _ => false

/-- Whether the three dots that are current begin an inline fragment. -/
def isInlineFragment (s : Reading) : Bool :=
  s.secondIs .name || s.secondIs .atSign || s.secondIs .leftBrace

/-- A selection; three dots or a name are current. -/
def selectionWith (selections : Rule) (depth : Nat) : Rule :=
  branch (isAt .name) (fieldWith selections depth) <|
  branch isSpread (fragmentSpread depth) <|
  branch isInlineFragment (inlineFragmentWith selections depth)
    (seq [report (.expected "an Inline Fragment or a Fragment Spread"), bump])

/-- A selection set; its opening brace is current. -/
def selectionSet : Nat → Rule
  | 0 => seq [bump, overLimit]
  | depth + 1 =>
    seq [
      bump,
      oneOrMore (fun s => s.isAt .name || s.isAt .spread)
        (selectionWith (selectionSet depth) depth)
        (.expected "at least one Selection in Selection Set"),
      expect .rightBrace]

end QueryLocator.Syntax
