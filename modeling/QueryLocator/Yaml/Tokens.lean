import QueryLocator.Yaml.Names
import QueryLocator.Yaml.Scalars

/-! # The tokens of a text, in order

Blocks are told by indentation: a deeper column opens a block, a lesser one closes the blocks deeper
than it.  A key may stand without a mark in front of it, so that only the colon behind it shows that
it is one; then the token that marks it is put in its place afterwards.  Such a key ends on the line
on which it begins and has no more than 1024 characters.

Tokens are handed out one by one.  A token that may still turn out to be a key is held back until
that is known, so an error behind it comes before it.
-/
namespace QueryLocator.Yaml

open Cursor

/-- Something that may turn out to be a key. -/
structure KeyCandidate where
  /-- Whether a key has to stand here. -/
  required : Bool
  /-- The number of the token that it begins with. -/
  number : Nat
  mark : Mark
  deriving Inhabited

/-- A text that has been cut into tokens in part. -/
structure Tokens where
  cursor : Cursor
  /-- The tokens that have been read and not handed out. -/
  queue : List Token := []
  /-- How many tokens have been handed out. -/
  handedOut : Nat := 0
  /-- The column of the innermost block, less than zero outside of all blocks. -/
  indent : Int := -1
  /-- The columns of the outer blocks, the innermost first. -/
  indents : List Int := []
  /-- How many flow collections are open. -/
  flow : Nat := 0
  /-- The candidate of every open flow collection, the innermost first, and of the block around
  them. -/
  candidates : List (Option KeyCandidate) := [none]
  /-- Whether a key may begin here. -/
  keyAllowed : Bool := true
  /-- Whether the text has been read to its end. -/
  ended : Bool := false

namespace Tokens

/-- The tokens of a text before any has been read. -/
def ofText (text : List Char) : Tokens :=
  { cursor := .start text
    queue := [⟨.streamStart, ⟨0, 0, 0⟩, ⟨0, 0, 0⟩⟩] }

variable (s : Tokens)

/-- The place where reading stands. -/
def mark : Mark :=
  s.cursor.mark

/-- Whether reading stands inside a flow collection. -/
def inFlow : Bool :=
  0 < s.flow

/-- Adds a token at the end. -/
def push (token : Token) : Tokens :=
  { s with queue := s.queue ++ [token] }

/-- Adds a token without extent. -/
def pushHere (kind : TokenKind) : Tokens :=
  s.push ⟨kind, s.mark, s.mark⟩

/-- Puts a token in front of the one with a number. -/
def insertAt (number : Nat) (token : Token) : Tokens :=
  let place := number - s.handedOut
  { s with queue := s.queue.take place ++ token :: s.queue.drop place }

/-- Reads a mark of so many characters as a token. -/
def pushMark (length : Nat) (kind : TokenKind) : Tokens :=
  let start := s.mark
  let cursor := s.cursor.advanceBy length
  { s with cursor }.push ⟨kind, start, cursor.mark⟩

/-- The candidate where reading stands. -/
def candidate? : Option KeyCandidate :=
  s.candidates.head?.join

/-- Sets the candidate where reading stands. -/
def setCandidate (candidate : Option KeyCandidate) : Tokens :=
  { s with candidates := candidate :: s.candidates.tail }

/-- Whether a candidate can no longer be a key where reading stands. -/
def isStale (candidate : KeyCandidate) : Bool :=
  candidate.mark.line < s.mark.line || candidate.mark.index + 1024 < s.mark.index

/-- Reports that something had to be a key and is not. -/
def missingColon {α : Type} (candidate : KeyCandidate) : Except Failure α :=
  s.cursor.fail .missingColon .simpleKey candidate.mark

/-- Drops the candidates that can no longer be keys, from the outermost on. -/
def dropStale : Except Failure Tokens :=
  match s.candidates.reverse.find? fun candidate =>
      candidate.any fun candidate => s.isStale candidate && candidate.required with
  | some (some candidate) => s.missingColon candidate
  | _ =>
    .ok { s with
      candidates := s.candidates.map fun candidate => candidate.filter fun c => !s.isStale c }

/-- Drops the candidate where reading stands. -/
def dropCandidate : Except Failure Tokens :=
  match s.candidate? with
  | some candidate =>
    if candidate.required then s.missingColon candidate else .ok (s.setCandidate none)
  | none => .ok (s.setCandidate none)

/-- Notes that the next token may be a key, if a key may begin here. -/
def noteCandidate : Except Failure Tokens :=
  if s.keyAllowed then do
    let required := !s.inFlow && s.indent == s.cursor.column
    let number := s.handedOut + s.queue.length
    let s ← s.dropCandidate
    return s.setCandidate (some ⟨required, number, s.mark⟩)
  else .ok s

/-- Says whether a key may begin at the next token. -/
def allowKey (allowed : Bool) : Tokens :=
  { s with keyAllowed := allowed }

/-- Opens a block at a column if that is deeper than the innermost block.  Its token comes in front of
the one with the given number, or at the end. -/
def openBlock (column : Nat) (number : Option Nat) (kind : TokenKind) (mark : Mark) : Tokens :=
  if s.inFlow || column ≤ s.indent then s
  else
    let s := { s with indent := column, indents := s.indent :: s.indents }
    match number with
    | some number => s.insertAt number ⟨kind, mark, mark⟩
    | none => s.push ⟨kind, mark, mark⟩

/-- Closes blocks, the innermost first, while they are deeper than a column. -/
def closeDeeper (column : Int) : List Int → Tokens → Tokens
  | [], s => s
  | outer :: rest, s =>
    if column < s.indent then
      closeDeeper column rest { s.pushHere .blockEnd with indent := outer, indents := rest }
    else s

/-- Closes the blocks that are deeper than a column.  Inside a flow collection columns do not
count. -/
def closeBlocks (column : Int) : Tokens :=
  if s.inFlow then s else closeDeeper column s.indents s

/-! ## Reading one token -/

/-- Moves on over white space, comments and empty lines.  Tabs count as white space except where a key
may begin. -/
def skipToToken : Nat → Tokens → Tokens
  | 0, s => s
  | bound + 1, s =>
    let cursor := if s.cursor.column = 0 ∧ s.cursor.isAt '\uFEFF' then s.cursor.advance else s.cursor
    let tabs := s.inFlow || !s.keyAllowed
    let cursor := (cursor.skipWhile fun c => c == ' ' || (tabs && c == '\t')).skipComment
    if cursor.atBreak then
      skipToToken bound
        { s with cursor := cursor.advanceLine, keyAllowed := s.keyAllowed || !s.inFlow }
    else { s with cursor }

/-- Reads the end of the text. -/
def readEnd : Except Failure Tokens := do
  let mark := s.mark
  let mark := if mark.column = 0 then mark else ⟨mark.index, mark.line + 1, 0⟩
  let s := { s with cursor := { s.cursor with mark } }.closeBlocks (-1)
  let s ← s.dropCandidate
  return { (s.allowKey false).pushHere .streamEnd with ended := true }

/-- Reads a directive. -/
def readDirective : Except Failure Tokens := do
  let s ← (s.closeBlocks (-1)).dropCandidate
  let (token, cursor) ← Yaml.readDirective s.cursor
  return { s.allowKey false with cursor }.push token

/-- Reads a mark that begins or ends a document. -/
def readDocumentMark (kind : TokenKind) : Except Failure Tokens := do
  let s ← (s.closeBlocks (-1)).dropCandidate
  return (s.allowKey false).pushMark 3 kind

/-- Reads the opening bracket of a flow collection. -/
def readFlowStart (kind : TokenKind) : Except Failure Tokens := do
  let s ← s.noteCandidate
  let s := { s with candidates := none :: s.candidates, flow := s.flow + 1 }
  return (s.allowKey true).pushMark 1 kind

/-- Reads the closing bracket of a flow collection. -/
def readFlowEnd (kind : TokenKind) : Except Failure Tokens := do
  let s ← s.dropCandidate
  let s := if s.inFlow then { s with candidates := s.candidates.tail, flow := s.flow - 1 } else s
  return (s.allowKey false).pushMark 1 kind

/-- Reads the comma between entries of a flow collection. -/
def readFlowEntry : Except Failure Tokens := do
  let s ← s.dropCandidate
  return (s.allowKey true).pushMark 1 .flowEntry

/-- Reads the hyphen in front of an entry of a block sequence. -/
def readBlockEntry : Except Failure Tokens := do
  if !s.inFlow && !s.keyAllowed then
    .error (.syntactic .blockEntryNotAllowed s.mark none)
  else
    let s := s.openBlock s.cursor.column none .blockSequenceStart s.mark
    let s ← s.dropCandidate
    return (s.allowKey true).pushMark 1 .blockEntry

/-- Reads the mark in front of a key. -/
def readKey : Except Failure Tokens := do
  if !s.inFlow && !s.keyAllowed then
    .error (.syntactic .keyNotAllowed s.mark none)
  else
    let s := s.openBlock s.cursor.column none .blockMappingStart s.mark
    let s ← s.dropCandidate
    return (s.allowKey (!s.inFlow)).pushMark 1 .key

/-- Reads the mark in front of a value.  A candidate in front of it turns out to be its key. -/
def readValue : Except Failure Tokens :=
  match s.candidate? with
  | some candidate =>
    let s := s.insertAt candidate.number ⟨.key, candidate.mark, candidate.mark⟩
    let s :=
      s.openBlock candidate.mark.column (some candidate.number) .blockMappingStart candidate.mark
    .ok (((s.setCandidate none).allowKey false).pushMark 1 .value)
  | none =>
    if !s.inFlow && !s.keyAllowed then
      .error (.syntactic .valueNotAllowed s.mark none)
    else
      let s := s.openBlock s.cursor.column none .blockMappingStart s.mark
      .ok ((s.allowKey (!s.inFlow)).pushMark 1 .value)

/-- Reads an anchor, an alias, a tag or a quoted scalar, any of which may begin a key. -/
def readKeyPart (read : Cursor → Except Failure (Token × Cursor)) : Except Failure Tokens := do
  let s ← s.noteCandidate
  let (token, cursor) ← read s.cursor
  return { s.allowKey false with cursor }.push token

/-- Reads a block scalar. -/
def readBlockScalar (literal : Bool) : Except Failure Tokens := do
  let s ← s.dropCandidate
  let (token, cursor) ← Yaml.readBlockScalar literal s.indent s.cursor
  return { s.allowKey true with cursor }.push token

/-- Reads a plain scalar. -/
def readPlainScalar : Except Failure Tokens := do
  let s ← s.noteCandidate
  let (token, folded, cursor) ← Yaml.readPlainScalar s.inFlow s.indent s.cursor
  return { s.allowKey folded with cursor }.push token

/-- The marks that begin no plain scalar. -/
def beginsNoScalar (c : Char) : Bool :=
  isBlank c || isBreak c ||
    ['-', '?', ':', ',', '[', ']', '\x7b', '\x7d', '#', '&', '*', '!', '|', '>', '\x27', '"', '%',
      '@', '`'].contains c

/-- Whether a plain scalar begins here. -/
def atPlainScalar (c : Char) : Bool :=
  !beginsNoScalar c ||
    (c == '-' && !(s.cursor.peekAt? 1).any isBlank) ||
    (!s.inFlow && (c == '?' || c == ':') && !s.cursor.blankOrEndAt 1)

/-- Reads the token that begins with the next character. -/
def readToken (c : Char) : Except Failure Tokens :=
  let spaced := s.cursor.blankOrEndAt 1
  if s.cursor.column = 0 ∧ c = '%' then s.readDirective
  else if s.cursor.atDocumentMark '-' then s.readDocumentMark .documentStart
  else if s.cursor.atDocumentMark '.' then s.readDocumentMark .documentEnd
  else if c = '[' then s.readFlowStart .flowSequenceStart
  else if c = '\x7b' then s.readFlowStart .flowMappingStart
  else if c = ']' then s.readFlowEnd .flowSequenceEnd
  else if c = '\x7d' then s.readFlowEnd .flowMappingEnd
  else if c = ',' then s.readFlowEntry
  else if c = '-' ∧ spaced then s.readBlockEntry
  else if c = '?' ∧ (s.inFlow ∨ spaced) then s.readKey
  else if c = ':' ∧ (s.inFlow ∨ spaced) then s.readValue
  else if c = '*' then s.readKeyPart (readName true)
  else if c = '&' then s.readKeyPart (readName false)
  else if c = '!' then s.readKeyPart (readTag s.inFlow)
  else if c = '|' ∧ !s.inFlow then s.readBlockScalar true
  else if c = '>' ∧ !s.inFlow then s.readBlockScalar false
  else if c = '\x27' then s.readKeyPart (readQuotedScalar true)
  else if c = '"' then s.readKeyPart (readQuotedScalar false)
  else if s.atPlainScalar c then s.readPlainScalar
  else s.cursor.fail .strayCharacter .token s.mark

/-- Reads the next token, and the ends of blocks before it. -/
def readMore : Except Failure Tokens := do
  let s := skipToToken (s.cursor.rest.length + 1) s
  let s ← s.dropStale
  let s := s.closeBlocks s.cursor.column
  match s.cursor.peek? with
  | none => s.readEnd
  | some c => s.readToken c

/-- Reads on until the first token in the queue is certain.  The first argument bounds the number of
tokens to be read. -/
def settle : Nat → Tokens → Except Failure Tokens
  | 0, s => .ok s
  | bound + 1, s =>
    if s.queue.isEmpty then do settle bound (← s.readMore)
    else do
      let s ← s.dropStale
      if s.candidates.any fun candidate => candidate.any fun c => c.number == s.handedOut then
        settle bound (← s.readMore)
      else return s

/-- Hands out the tokens up to the end of the text, and the failure that ends them early, if there is
one.  The first argument bounds their number. -/
def handOut : Nat → Tokens → List Token × Option Failure
  | 0, _ => ([], none)
  | bound + 1, s =>
    match settle (s.cursor.rest.length + 3) s with
    | .error failure => ([], some failure)
    | .ok s =>
      match s.queue with
      | [] => ([], none)
      | token :: queue =>
        if token.kind = .streamEnd then ([token], none)
        else
          let (tokens, failure) := handOut bound { s with queue, handedOut := s.handedOut + 1 }
          (token :: tokens, failure)

end Tokens

/-- Whether a character may stand in a YAML text. -/
def isAllowed (c : Char) : Bool :=
  let n := c.toNat
  n == 0x09 || n == 0x0A || n == 0x0D || (0x20 ≤ n && n ≤ 0x7E) || n == 0x85 ||
    (0xA0 ≤ n && n ≤ 0xD7FF) || (0xE000 ≤ n && n ≤ 0xFFFD) || (0x10000 ≤ n && n ≤ 0x10FFFF)

end QueryLocator.Yaml
