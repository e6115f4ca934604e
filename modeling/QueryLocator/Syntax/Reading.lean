import QueryLocator.Syntax.Fault

/-! # Reading a document token by token

A reading holds the lexemes still ahead, those already taken, and the errors found so far.  Its
current token is the first lexeme ahead; faulty pieces in front of it are passed, and reported, before
it becomes current.
-/
namespace QueryLocator.Syntax

/-- A document that has been read in part. -/
structure Reading where
  /-- The lexemes still to be read; the first one is the current token. -/
  ahead : List Lexeme
  /-- The lexemes read, the last one first. -/
  taken : List Lexeme
  /-- The errors found, the last one first. -/
  errors : List SyntaxError
  /-- Once brackets were nested too deeply the grammar reports nothing more. -/
  silenced : Bool

/-- A rule of the grammar: what reading one construct does. -/
abbrev Rule := Reading → Reading

namespace Reading

/-- Passes the lexemes at the front that are faulty, or that `skipped` names. -/
def passing (skipped : TokenKind → Bool) (taken : List Lexeme) (errors : List SyntaxError)
    (silenced : Bool) : List Lexeme → Reading
  | [] => ⟨[], taken, errors, silenced⟩
  | lexeme :: rest =>
    match lexeme.kind with
    | .error fault =>
      passing skipped (lexeme :: taken) (⟨fault.message, lexeme.offset⟩ :: errors) silenced rest
    | .ok kind =>
      if skipped kind then passing skipped (lexeme :: taken) errors silenced rest
      else ⟨lexeme :: rest, taken, errors, silenced⟩

/-- Makes the next token current. -/
def settle : Rule := fun s =>
  passing (fun _ => false) s.taken s.errors s.silenced s.ahead

/-- Makes the next token current that is not trivia. -/
def skip : Rule := fun s =>
  passing TokenKind.isTrivia s.taken s.errors s.silenced s.ahead

/-- The current token. -/
def current? (s : Reading) : Option Lexeme :=
  s.ahead.head?

/-- Whether the current token is of a kind. -/
def isAt (kind : TokenKind) (s : Reading) : Bool :=
  match s.current? with
  | some ⟨.ok found, _, _⟩ => found == kind
  | _ => false

/-- Whether the current token has a text, whatever its kind. -/
def isWord (word : String) (s : Reading) : Bool :=
  match s.current? with
  | some lexeme => lexeme.text == word.toList
  | none => false

/-- Whether the current token is a name with the given text. -/
def isNamed (word : String) (s : Reading) : Bool :=
  s.isAt .name && s.isWord word

/-- The text of the current token, if it is a name. -/
def name? (s : Reading) : Option (List Char) :=
  if s.isAt .name then s.current?.map Lexeme.text else none

/-- The token after the current one.  White space, comments and faulty pieces are passed over, a
comma is not. -/
def second? (s : Reading) : Option Lexeme :=
  s.ahead.tail.find? fun lexeme =>
    match lexeme.kind with
    | .ok .whitespace | .ok .comment | .error _ => false
    | .ok _ => true

/-- Whether the token after the current one is of a kind. -/
def secondIs (kind : TokenKind) (s : Reading) : Bool :=
  match s.second? with
  | some ⟨.ok found, _, _⟩ => found == kind
  | _ => false

/-- Reports an error at an offset. -/
def reportAt (offset : Nat) (fault : GrammarFault) : Rule := fun s =>
  if s.silenced then s else { s with errors := ⟨fault.message, offset⟩ :: s.errors }

/-- Reports an error at the current token.  Behind the end of the document nothing is reported. -/
def report (fault : GrammarFault) : Rule := fun s =>
  match s.current? with
  | some lexeme => s.reportAt lexeme.offset fault
  | none => s

/-- Takes the current token. -/
def take : Rule := fun s =>
  match s.ahead with
  | [] => s
  | lexeme :: rest => { s with ahead := rest, taken := lexeme :: s.taken }

/-- Takes the current token and makes the next one current. -/
def bump : Rule := fun s =>
  s.take.skip

/-- Reports an error at the current token and goes on behind it. -/
def refuse (fault : GrammarFault) : Rule := fun s =>
  (s.report fault).bump

/-- Takes the mark that has to come here, or reports that it is missing. -/
def expect (mark : TokenKind) : Rule := fun s =>
  match s.current? with
  | some lexeme =>
    if s.isAt mark then s.bump else s.report (.missingMark mark lexeme.text)
  | none => s

/-- Reports that brackets are nested too deeply, and nothing after that. -/
def overLimit : Rule := fun s =>
  { s.report .nestingLimit with silenced := true }

end Reading

namespace Rule

open Reading

/-- One rule after another. -/
def seq (rules : List Rule) : Rule := fun s =>
  rules.foldl (fun s rule => rule s) s

/-- One of two rules, by a look at the reading. -/
def branch (test : Reading → Bool) (yes no : Rule) : Rule := fun s =>
  if test s then yes s else no s

/-- A rule that is left out unless the reading passes a test. -/
def optional (test : Reading → Bool) (rule : Rule) : Rule :=
  branch test rule id

/-- Repeats a rule while the reading passes a test, at most `bound` times. -/
def repeatFor (test : Reading → Bool) (rule : Rule) : Nat → Rule
  | 0 => id
  | bound + 1 => fun s => if test s then repeatFor test rule bound (rule s) else s

/-- Repeats a rule while the reading passes a test.  The rule takes at least one lexeme each time, so
that the number of lexemes ahead bounds the repetition. -/
def whileAt (test : Reading → Bool) (rule : Rule) : Rule := fun s =>
  repeatFor test rule s.ahead.length s

/-- A rule that is read once or more while the reading passes a test, with the fault to report when
it is not read at all. -/
def oneOrMore (test : Reading → Bool) (rule : Rule) (fault : GrammarFault) : Rule :=
  branch test (whileAt test rule) (report fault)

/-- Items with a separator between them and, if it is there, in front of them. -/
def separated (separator : TokenKind) (item : Rule) : Rule :=
  seq [optional (isAt separator) bump, item,
    whileAt (isAt separator) (seq [bump, item])]

/-- Parts each of which is read if its test passes, in this order, with the fault to report when none
of them is there. -/
def someOf (parts : List ((Reading → Bool) × Rule)) (fault : GrammarFault) : Rule := fun s =>
  let (s, found) := parts.foldl
    (fun (s, found) (test, rule) => if test s then (rule s, true) else (s, found)) (s, false)
  if found then s else s.report fault

end Rule
end QueryLocator.Syntax
