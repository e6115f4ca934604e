import QueryLocator.Syntax.NumberLiteral
import QueryLocator.Syntax.StringLiteral
import QueryLocator.Text.Bytes

/-! # Cutting a document into lexemes

Reading never fails: text that begins no token becomes a faulty piece and reading goes on behind it.
Main statement: the texts of the lexemes, in order, are the document.
-/
namespace QueryLocator.Syntax

open Text

/-- The mark that a single character is, if it is one. -/
def punctuator? (c : Char) : Option TokenKind :=
  match c with
  | '!' => some .bang
  | '$' => some .dollar
  | '&' => some .ampersand
  | '(' => some .leftParen
  | ')' => some .rightParen
  | ',' => some .comma
  | ':' => some .colon
  | '=' => some .equals
  | '@' => some .atSign
  | '[' => some .leftBracket
  | ']' => some .rightBracket
  | '\x7b' => some .leftBrace
  | '|' => some .bar
  | '\x7d' => some .rightBrace
  | _ => none

/-- Reads what follows a dot: two more dots make a spread.  A character in the place of the second
dot belongs to the faulty piece, one in the place of the third does not. -/
def dots : List Char → Cut
  | '.' :: '.' :: _ => ⟨.ok .spread, 2⟩
  | _ :: _ => ⟨.error .unterminatedSpread, 1⟩
  | [] => ⟨.error .unterminatedSpread, 0⟩

/-- How a text that begins with `c` is cut. -/
def cut (c : Char) (rest : List Char) : Cut :=
  if isSpace c then ⟨.ok .whitespace, (rest.takeWhile isSpace).length⟩
  else if c == '#' then ⟨.ok .comment, (rest.takeWhile fun d => d != '\n' && d != '\r').length⟩
  else if isNameStart c then ⟨.ok .name, (rest.takeWhile isNameContinue).length⟩
  else if c == '"' then stringLiteral rest
  else if c == '.' then dots rest
  else if c == '-' then NumberState.minus.read 0 rest
  else if c == '0' then NumberState.zero.read 0 rest
  else if c.isDigit then NumberState.integer.read 0 rest
  else match punctuator? c with
    | some kind => ⟨.ok kind, 0⟩
    | none => ⟨.error (.strayCharacter c), 0⟩

/-- The first lexeme of a text that begins with `c`, and the text behind it. -/
def firstLexeme (offset : Nat) (c : Char) (rest : List Char) : Lexeme × List Char :=
  let piece := cut c rest
  (⟨piece.kind, c :: rest.take piece.further, offset⟩, rest.drop piece.further)

/-- The lexemes of a text that begins at a byte offset.  The first argument bounds their number; a
text has at most as many lexemes as characters. -/
def lexemesFrom : Nat → Nat → List Char → List Lexeme
  | 0, _, _ => []
  | _, _, [] => []
  | bound + 1, offset, c :: rest =>
    let (first, rest) := firstLexeme offset c rest
    first :: lexemesFrom bound (offset + byteSize first.text) rest

/-- The lexemes of a document. -/
def lexemes (text : List Char) : List Lexeme :=
  lexemesFrom text.length 0 text

theorem firstLexeme_append (offset : Nat) (c : Char) (rest : List Char) :
    (firstLexeme offset c rest).1.text ++ (firstLexeme offset c rest).2 = c :: rest := by
  simp [firstLexeme]

theorem firstLexeme_rest_length_le (offset : Nat) (c : Char) (rest : List Char) :
    (firstLexeme offset c rest).2.length ≤ rest.length := by
  simp [firstLexeme]

theorem lexemesFrom_texts {bound offset : Nat} {text : List Char} (h : text.length ≤ bound) :
    ((lexemesFrom bound offset text).map Lexeme.text).flatten = text := by
  induction bound generalizing offset text with
  | zero =>
    rw [List.eq_nil_of_length_eq_zero (Nat.le_zero.mp h)]
    rfl
  | succ bound ih =>
    cases text with
    | nil => rfl
    | cons c rest =>
      have hrest := firstLexeme_rest_length_le offset c rest
      simp only [List.length_cons] at h
      simp only [lexemesFrom, List.map_cons, List.flatten_cons]
      rw [ih (by omega), firstLexeme_append]

/-- The texts of the lexemes, in order, are the document. -/
theorem lexemes_texts (text : List Char) : ((lexemes text).map Lexeme.text).flatten = text :=
  lexemesFrom_texts (Nat.le_refl _)

end QueryLocator.Syntax
