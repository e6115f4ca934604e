import QueryLocator.Yaml.Cursor

/-! # Tokens of a YAML text

The tokens say how a text is structured; beginnings and ends of blocks, which the text shows by
indentation alone, are tokens as well.
-/
namespace QueryLocator.Yaml

/-- How a scalar is written. -/
inductive ScalarStyle where
  | plain
  | quoted
  | block
  deriving DecidableEq, Repr

/-- The handle and the rest of a tag.  Without a handle the rest is the whole tag. -/
structure TagText where
  handle : List Char
  suffix : List Char
  deriving DecidableEq, Repr

/-- The kinds of tokens. -/
inductive TokenKind where
  | streamStart
  | streamEnd
  | versionDirective (major minor : Nat)
  | tagDirective (handle tagPrefix : List Char)
  | documentStart
  | documentEnd
  | blockSequenceStart
  | blockMappingStart
  | blockEnd
  | flowSequenceStart
  | flowSequenceEnd
  | flowMappingStart
  | flowMappingEnd
  | blockEntry
  | flowEntry
  | key
  | value
  | reference (name : List Char)
  | anchor (name : List Char)
  | tag (text : TagText)
  | scalar (style : ScalarStyle) (text : List Char)
  deriving DecidableEq, Repr

/-- A token with the places of its beginning and its end. -/
structure Token where
  kind : TokenKind
  start : Mark
  stop : Mark

end QueryLocator.Yaml
