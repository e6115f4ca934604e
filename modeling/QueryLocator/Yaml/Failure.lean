import QueryLocator.Mismatch

/-! # Why a YAML text cannot be read

A fault in the writing of a text is reported with the place where it shows, and often with what was
being read and where that began.  A fault in the data is reported with the path to the value.  Lines
and columns are counted from one in messages; the very beginning of a text is not mentioned.
-/
namespace QueryLocator.Yaml

/-- A place in a text: the number of characters before it, its line, and its column. -/
structure Mark where
  index : Nat
  line : Nat
  column : Nat
  deriving DecidableEq, Repr, Inhabited

/-- Whether a mark stands at the beginning of the first line. -/
def Mark.isOrigin (mark : Mark) : Bool :=
  mark.line == 0 && mark.column == 0

/-- A mark in a message. -/
def Mark.describe (mark : Mark) : String :=
  s!" at line {mark.line + 1} column {mark.column + 1}"

/-- A mark in a message, unless it stands at the beginning. -/
def Mark.note (mark : Mark) : String :=
  if mark.isOrigin then "" else mark.describe

/-- What is wrong in the writing of a text. -/
inductive Problem where
  /-- A mark or a key stands where it cannot. -/
  | blockEntryNotAllowed
  | keyNotAllowed
  | valueNotAllowed
  | missingColon
  | strayCharacter
  | unknownDirective
  | missingDirectiveName
  | nonAlphabeticDirective
  | missingCommentOrBreak
  | missingVersionPoint
  | missingVersionNumber
  | longVersionNumber
  | missingWhitespace
  | missingWhitespaceOrBreak
  | missingAnchorName
  | missingTagEnd
  | missingTagBang
  | missingTagUri
  | missingUriOctet
  | badLeadingOctet
  | badTrailingOctet
  | zeroIndent
  | tabInIndent
  | documentMarkInScalar
  | endInScalar
  | unknownEscape
  | missingHexDigit
  | invalidCodePoint
  | colonInFlow
  | tabBeforeScalar
  | missingStreamStart
  | missingDocumentStart
  | undefinedTagHandle
  | missingNode
  | missingDash
  | missingKey
  | missingFlowSequenceEnd
  | missingFlowMappingEnd
  | duplicateVersion
  | incompatibleVersion
  | duplicateTagDirective
  deriving DecidableEq, Repr

/-- The wording of a problem. -/
def Problem.message : Problem → String
  | blockEntryNotAllowed => "block sequence entries are not allowed in this context"
  | keyNotAllowed => "mapping keys are not allowed in this context"
  | valueNotAllowed => "mapping values are not allowed in this context"
  | missingColon => "could not find expected ':'"
  | strayCharacter => "found character that cannot start any token"
  | unknownDirective => "found unknown directive name"
  | missingDirectiveName => "could not find expected directive name"
  | nonAlphabeticDirective => "found unexpected non-alphabetical character"
  | missingCommentOrBreak => "did not find expected comment or line break"
  | missingVersionPoint => "did not find expected digit or '.' character"
  | missingVersionNumber => "did not find expected version number"
  | longVersionNumber => "found extremely long version number"
  | missingWhitespace => "did not find expected whitespace"
  | missingWhitespaceOrBreak => "did not find expected whitespace or line break"
  | missingAnchorName => "did not find expected alphabetic or numeric character"
  | missingTagEnd => "did not find the expected '>'"
  | missingTagBang => "did not find expected '!'"
  | missingTagUri => "did not find expected tag URI"
  | missingUriOctet => "did not find URI escaped octet"
  | badLeadingOctet => "found an incorrect leading UTF-8 octet"
  | badTrailingOctet => "found an incorrect trailing UTF-8 octet"
  | zeroIndent => "found an indentation indicator equal to 0"
  | tabInIndent => "found a tab character where an indentation space is expected"
  | documentMarkInScalar => "found unexpected document indicator"
  | endInScalar => "found unexpected end of stream"
  | unknownEscape => "found unknown escape character"
  | missingHexDigit => "did not find expected hexdecimal number"
  | invalidCodePoint => "found invalid Unicode character escape code"
  | colonInFlow => "found unexpected ':'"
  | tabBeforeScalar => "found a tab character that violates indentation"
  | missingStreamStart => "did not find expected <stream-start>"
  | missingDocumentStart => "did not find expected <document start>"
  | undefinedTagHandle => "found undefined tag handle"
  | missingNode => "did not find expected node content"
  | missingDash => "did not find expected '-' indicator"
  | missingKey => "did not find expected key"
  | missingFlowSequenceEnd => "did not find expected ',' or ']'"
  | missingFlowMappingEnd => "did not find expected ',' or '\x7d'"
  | duplicateVersion => "found duplicate %YAML directive"
  | incompatibleVersion => "found incompatible YAML document"
  | duplicateTagDirective => "found duplicate %TAG directive"

/-- What was being read when a problem showed. -/
inductive Activity where
  | token
  | simpleKey
  | directive
  | versionDirective
  | tagDirective
  | tagDirectiveStart
  | tagDirectiveHandle
  | tagDirectivePrefix
  | anchor
  | reference
  | tag
  | tagUri
  | blockScalar
  | quotedScalar
  | escape
  | plainScalar
  | node
  | blockNode
  | flowNode
  | blockCollection
  | blockMapping
  | flowSequence
  | flowMapping
  deriving DecidableEq, Repr

/-- The wording of an activity. -/
def Activity.message : Activity → String
  | token => "while scanning for the next token"
  | simpleKey => "while scanning a simple key"
  | directive => "while scanning a directive"
  | versionDirective => "while scanning a %YAML directive"
  | tagDirective => "while scanning a %TAG directive"
  | tagDirectiveStart => "while scanning a tag directive"
  | tagDirectiveHandle => "while parsing a tag directive"
  | tagDirectivePrefix => "while parsing a %TAG directive"
  | anchor => "while scanning an anchor"
  | reference => "while scanning an alias"
  | tag => "while scanning a tag"
  | tagUri => "while parsing a tag"
  | blockScalar => "while scanning a block scalar"
  | quotedScalar => "while scanning a quoted scalar"
  | escape => "while parsing a quoted scalar"
  | plainScalar => "while scanning a plain scalar"
  | node => "while parsing a node"
  | blockNode => "while parsing a block node"
  | flowNode => "while parsing a flow node"
  | blockCollection => "while parsing a block collection"
  | blockMapping => "while parsing a block mapping"
  | flowSequence => "while parsing a flow sequence"
  | flowMapping => "while parsing a flow mapping"

/-- Why a YAML text cannot be read. -/
inductive Failure where
  /-- A control character stands at a byte offset. -/
  | controlCharacter (offset : Nat)
  /-- A problem, the place where it shows, and what was being read and since where. -/
  | syntactic (problem : Problem) (place : Mark) (during : Option (Activity × Mark))
  /-- An alias stands for no value. -/
  | unknownAnchor (place : Mark)
  /-- Collections are nested too deeply. -/
  | nestingLimit (place : Mark)
  /-- Aliases are used too often. -/
  | repetitionLimit
  | severalDocuments
  /-- A value has a tag that names a type of its own. -/
  | taggedValue (path : String) (place : Mark)
  /-- A value does not fit. -/
  | unfit (mismatch : Mismatch) (path : String) (place : Mark)
  /-- An integer is too large; the type it would need is named. -/
  | largeInteger (value : Int) (type : String) (path : String) (place : Mark)
  /-- The data does not fit the type that is asked for. -/
  | shape (mismatch : Mismatch)
  deriving DecidableEq, Repr

/-- The path to a value in front of a message; none is written for the whole text. -/
def pathNote (path : String) : String :=
  if path == "." then "" else s!"{path}: "

/-- The failure in one line. -/
def Failure.message : Failure → String
  | controlCharacter offset =>
    if offset = 0 then "control characters are not allowed"
    else s!"control characters are not allowed at position {offset}"
  | syntactic problem place during =>
    let context :=
      match during with
      | none => ""
      | some (activity, start) =>
        let since :=
          if start.line = place.line ∧ start.column = place.column then "" else start.note
        s!", {activity.message}{since}"
    s!"{problem.message}{place.note}{context}"
  | unknownAnchor place => s!"unknown anchor{place.note}"
  | nestingLimit place => s!"recursion limit exceeded{place.note}"
  | repetitionLimit => "repetition limit exceeded"
  | severalDocuments =>
    "deserializing from YAML containing more than one document is not supported"
  | taggedValue path place =>
    s!"{pathNote path}untagged and internally tagged enums do not support enum input{place.note}"
  | unfit mismatch path place => s!"{pathNote path}{mismatch.message}{place.note}"
  | largeInteger value type path place =>
    s!"{pathNote path}invalid type: integer `{value}` as {type}, expected any value{place.note}"
  | shape mismatch => mismatch.message

end QueryLocator.Yaml
