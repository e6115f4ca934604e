/-! # Lexemes

A document is cut into lexemes: tokens, and pieces of text that are no token, each with the fault
that was found in it.  White space, commas and comments are tokens as well, so the texts of the
lexemes put together are the document.
-/
namespace QueryLocator.Syntax

/-- The kinds of tokens of the query language. -/
inductive TokenKind where
  | whitespace
  | comment
  | comma
  | bang
  | dollar
  | ampersand
  | leftParen
  | rightParen
  | spread
  | colon
  | equals
  | atSign
  | leftBracket
  | rightBracket
  | leftBrace
  | bar
  | rightBrace
  | name
  | int
  | float
  | string
  | endOfText
  deriving DecidableEq, Repr

/-- White space, commas and comments separate tokens and mean nothing themselves. -/
def TokenKind.isTrivia : TokenKind → Bool
  | .whitespace | .comment | .comma => true
  | _ => false

/-- What is wrong with a piece of text that is no token. -/
inductive LexFault where
  /-- The character begins no token. -/
  | strayCharacter (c : Char)
  /-- One or two dots where three are needed. -/
  | unterminatedSpread
  /-- A minus sign without a digit after it. -/
  | notADigit (c : Char)
  | leadingZero
  | integerSuffix (c : Char)
  | fractionDigit (c : Char)
  | exponentDigitOrSign (c : Char)
  | exponentDigit (c : Char)
  | floatSuffix (c : Char)
  | floatEnd
  | lineTerminator
  | escapedCharacter
  | incompleteUnicode
  | invalidUnicode
  | unpairedSurrogate
  | notScalarValue
  | unterminatedString
  /-- The document ends right after an opening quote. -/
  | stringEnd
  deriving DecidableEq, Repr

/-- The wording of a fault. -/
def LexFault.message : LexFault → String
  | .strayCharacter c => s!"Unexpected character \"{c}\""
  | .unterminatedSpread => "Unterminated spread operator"
  | .notADigit c => s!"Unexpected character `{c}`"
  | .leadingZero => "Numbers must not have non-significant leading zeroes"
  | .integerSuffix c => s!"Unexpected character `{c}` as integer suffix"
  | .fractionDigit c => s!"Unexpected character `{c}`, expected fractional digit"
  | .exponentDigitOrSign c => s!"Unexpected character `{c}`, expected exponent digit or sign"
  | .exponentDigit c => s!"Unexpected character `{c}`, expected exponent digit"
  | .floatSuffix c => s!"Unexpected character `{c}` as float suffix"
  | .floatEnd => "Unexpected EOF in float value"
  | .lineTerminator => "unexpected line terminator"
  | .escapedCharacter => "unexpected escaped character"
  | .incompleteUnicode => "incomplete unicode escape sequence"
  | .invalidUnicode => "invalid unicode escape sequence"
  | .unpairedSurrogate => "unpaired surrogate in unicode escape sequence"
  | .notScalarValue => "unicode escape sequence must specify a Unicode scalar value"
  | .unterminatedString => "unterminated string value"
  | .stringEnd => "unexpected end of data while lexing string value"

/-- A piece of a document: its kind or its fault, its text, and the byte offset it starts at. -/
structure Lexeme where
  kind : Except LexFault TokenKind
  text : List Char
  offset : Nat

/-- What the start of a text was read as: the kind or the fault, and how many characters after the
first one belong to it. -/
structure Cut where
  kind : Except LexFault TokenKind
  further : Nat

/-- Letters and the underscore begin a name. -/
def isNameStart (c : Char) : Bool :=
  c.isAlpha || c == '_'

/-- Letters, digits and the underscore continue a name. -/
def isNameContinue (c : Char) : Bool :=
  c.isAlphanum || c == '_'

/-- White space of the query language: tab, space, line feed, carriage return and the byte order
mark. -/
def isSpace (c : Char) : Bool :=
  c == '\t' || c == ' ' || c == '\n' || c == '\r' || c == '\uFEFF'

end QueryLocator.Syntax
