import QueryLocator.Syntax.Lexeme

/-! # Number literals

A number is an integer part, an optional fraction and an optional exponent.  It is read one
character at a time; the character that shows a number to be malformed belongs to the faulty piece,
so that reading goes on behind it.
-/
namespace QueryLocator.Syntax

/-- How far a number has been read. -/
inductive NumberState where
  /-- A minus sign. -/
  | minus
  /-- An integer part that is the digit zero. -/
  | zero
  | integer
  /-- A decimal point. -/
  | point
  | fraction
  /-- The letter that introduces an exponent. -/
  | exponentMark
  | exponentSign
  | exponent
  deriving DecidableEq, Repr

/-- What the next character of a number leads to. -/
inductive NumberStep where
  /-- The character belongs to the number. -/
  | continue (state : NumberState)
  /-- The number ended before the character. -/
  | stop (kind : TokenKind)
  /-- The character is a fault and belongs to the faulty piece. -/
  | fail (fault : LexFault)

namespace NumberState

/-- The step that a character takes. -/
def step (c : Char) : NumberState → NumberStep
  | minus =>
    if c == '0' then .continue zero
    else if c.isDigit then .continue integer
    else .fail (.notADigit c)
  | zero =>
    if c.isDigit then .fail .leadingZero
    else if c == '.' then .continue point
    else if c == 'e' || c == 'E' then .continue exponentMark
    else if isNameStart c then .fail (.integerSuffix c)
    else .stop .int
  | integer =>
    if c.isDigit then .continue integer
    else if c == '.' then .continue point
    else if c == 'e' || c == 'E' then .continue exponentMark
    else if isNameStart c then .fail (.integerSuffix c)
    else .stop .int
  | point =>
    if c.isDigit then .continue fraction else .fail (.fractionDigit c)
  | fraction =>
    if c.isDigit then .continue fraction
    else if c == 'e' || c == 'E' then .continue exponentMark
    else if c == '.' || isNameStart c then .fail (.floatSuffix c)
    else .stop .float
  | exponentMark =>
    if c.isDigit then .continue exponent
    else if c == '+' || c == '-' then .continue exponentSign
    else .fail (.exponentDigitOrSign c)
  | exponentSign =>
    if c.isDigit then .continue exponent else .fail (.exponentDigit c)
  | exponent =>
    if c.isDigit then .continue exponent
    else if c == '.' || isNameStart c then .fail (.floatSuffix c)
    else .stop .float

/-- What a number is when the document ends there. -/
def atEnd : NumberState → Except LexFault TokenKind
  | minus => .error (.strayCharacter '-')
  | zero | integer => .ok .int
  | fraction | exponent => .ok .float
  | point | exponentMark | exponentSign => .error .floatEnd

/-- Reads the rest of a number, `further` characters of which have been read already. -/
def read (state : NumberState) (further : Nat) : List Char → Cut
  | [] => ⟨state.atEnd, further⟩
  | c :: rest =>
    match state.step c with
    | .continue next => read next (further + 1) rest
    | .stop kind => ⟨.ok kind, further⟩
    | .fail fault => ⟨.error fault, further + 1⟩

end NumberState
end QueryLocator.Syntax
