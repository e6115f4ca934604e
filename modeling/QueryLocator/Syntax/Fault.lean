import QueryLocator.Syntax.Lexeme

/-! # Syntax errors

What the grammar finds wrong with a document, and the wording of it.
-/
namespace QueryLocator

/-- An error in a document: its text and the byte offset that it points at. -/
structure SyntaxError where
  message : String
  offset : Nat
  deriving DecidableEq, Repr

namespace Syntax

/-- What the grammar finds wrong at a token. -/
inductive GrammarFault where
  /-- The document holds no token but trivia. -/
  | emptyDocument
  /-- A mark is missing; the token that stands in its place has the given text, none at the end of
  the document. -/
  | missingMark (mark : TokenKind) (found : List Char)
  /-- Something else is missing. -/
  | expected (what : String)
  | fragmentNamedOn
  | variableInConstant
  | literalAsEnumValue
  | unsuitableExtension
  | incompleteInterfaceExtension
  /-- Brackets are nested too deeply. -/
  | nestingLimit
  deriving DecidableEq, Repr

/-- The name under which a mark is reported missing. -/
def TokenKind.label : TokenKind → String
  | .whitespace => "WHITESPACE"
  | .comment => "COMMENT"
  | .comma => "COMMA"
  | .bang => "BANG"
  | .dollar => "DOLLAR"
  | .ampersand => "AMP"
  | .leftParen => "L_PAREN"
  | .rightParen => "R_PAREN"
  | .spread => "SPREAD"
  | .colon => "COLON"
  | .equals => "EQ"
  | .atSign => "AT"
  | .leftBracket => "L_BRACK"
  | .rightBracket => "R_BRACK"
  | .leftBrace => "L_CURLY"
  | .bar => "PIPE"
  | .rightBrace => "R_CURLY"
  | .name => "NAME"
  | .int => "INT"
  | .float => "FLOAT"
  | .string => "STRING"
  | .endOfText => "EOF"

/-- The wording of a fault. -/
def GrammarFault.message : GrammarFault → String
  | .emptyDocument => "Unexpected <EOF>."
  | .missingMark mark found =>
    let found := if found.isEmpty then "EOF" else String.ofList found
    s!"expected {mark.label}, got {found}"
  | .expected what => s!"expected {what}"
  | .fragmentNamedOn => "Fragment Name cannot be 'on'"
  | .variableInConstant => "unexpected variable value in a Const context"
  | .literalAsEnumValue => "invalid Enum Value"
  | .unsuitableExtension =>
    "Invalid Type System Extension. This extension cannot be applied."
  | .incompleteInterfaceExtension =>
    "exptected an Implements Interfaces, Directives, or a Fields Definition"
  | .nestingLimit => "parser recursion limit reached"

end Syntax
end QueryLocator
