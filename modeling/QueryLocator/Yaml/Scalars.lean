import QueryLocator.Yaml.Token

/-! # Scalars of a YAML text

Block scalars keep or fold the ends of their lines; quoted and plain scalars fold them: one end of a
line becomes a space, of several ones the first is dropped.
-/
namespace QueryLocator.Yaml

open Cursor

/-! ## Block scalars -/

/-- What happens to the ends of lines behind a block scalar. -/
inductive Chomping where
  | strip
  | clip
  | keep
  deriving DecidableEq

/-- The sign that tells the chomping. -/
def chomping? : Option Char → Option Chomping
  | some '+' => some .keep
  | some '-' => some .strip
  | _ => none

/-- Reads the digit that tells the indentation of a block scalar; it is not zero. -/
def readIndentDigit (start : Mark) (cursor : Cursor) : Except Failure (Nat × Cursor) :=
  match cursor.peek? with
  | some c =>
    if !c.isDigit then .ok (0, cursor)
    else if c == '0' then cursor.fail .zeroIndent .blockScalar start
    else .ok (c.toNat - 0x30, cursor.advance)
  | none => .ok (0, cursor)

/-- Reads the signs behind the mark of a block scalar, in either order. -/
def readBlockHeader (start : Mark) (cursor : Cursor) :
    Except Failure (Chomping × Nat × Cursor) := do
  match chomping? cursor.peek? with
  | some chomping =>
    let (indent, cursor) ← readIndentDigit start cursor.advance
    return (chomping, indent, cursor)
  | none =>
    let (indent, cursor) ← readIndentDigit start cursor
    if indent = 0 then return (.clip, 0, cursor)
    else
      match chomping? cursor.peek? with
      | some chomping => return (chomping, indent, cursor.advance)
      | none => return (.clip, indent, cursor)

/-- Reads the indentation of the next line of a block scalar and the ends of the empty lines before
it.  An indentation of zero is not known yet. -/
def readIndentation (start : Mark) (indent : Nat) :
    Nat → List Char → Nat → Cursor → Except Failure (List Char × Nat × Cursor)
  | 0, breaks, widest, cursor => .ok (breaks, widest, cursor)
  | bound + 1, breaks, widest, cursor =>
    let spaces := (cursor.takeWhile (· == ' ')).length
    let wanted := if indent = 0 then spaces else min spaces (indent - cursor.column)
    let cursor := cursor.advanceBy wanted
    let widest := max widest cursor.column
    if (indent = 0 || cursor.column < indent) && cursor.isAt '\t' then
      cursor.fail .tabInIndent .blockScalar start
    else if cursor.atBreak then
      readIndentation start indent bound (breaks ++ cursor.lineBreak) widest cursor.advanceLine
    else .ok (breaks, widest, cursor)

/-- The text of a block scalar that has been read in part. -/
structure BlockText where
  text : List Char := []
  /-- The end of the last line. -/
  lineBreak : List Char := []
  /-- The ends of the empty lines after it. -/
  emptyLines : List Char := []
  /-- Whether the last line began with white space. -/
  spaced : Bool := false

/-- Adds a line to a block scalar.  A folded scalar joins it to the line before by a space, or by the
empty lines between them, unless one of the two begins with white space. -/
def BlockText.addLine (block : BlockText) (literal : Bool) (line lineBreak : List Char) :
    BlockText :=
  let spaced := line.head?.any isBlank
  let folds := !literal && block.lineBreak.head? == some '\n' && !block.spaced && !spaced
  let joint :=
    if folds then (if block.emptyLines.isEmpty then [' '] else []) else block.lineBreak
  { text := block.text ++ joint ++ block.emptyLines ++ line
    lineBreak
    emptyLines := []
    spaced }

/-- Reads the lines of a block scalar. -/
def readBlockLines (start : Mark) (literal : Bool) (indent : Nat) :
    Nat → BlockText → Cursor → Except Failure (BlockText × Cursor)
  | 0, block, cursor => .ok (block, cursor)
  | bound + 1, block, cursor =>
    if cursor.column == indent && !cursor.atEnd then do
      let line := cursor.takeWhile fun c => !isBreak c
      let cursor := cursor.skipWhile fun c => !isBreak c
      let block := block.addLine literal line cursor.lineBreak
      let cursor := cursor.advanceLine
      let (breaks, _, cursor) ← readIndentation start indent (cursor.rest.length + 1) [] 0 cursor
      readBlockLines start literal indent bound { block with emptyLines := breaks } cursor
    else .ok (block, cursor)

/-- Reads a block scalar inside a block of the given indentation. -/
def readBlockScalar (literal : Bool) (blockIndent : Int) (cursor : Cursor) :
    Except Failure (Token × Cursor) := do
  let start := cursor.mark
  let (chomping, increment, cursor) ← readBlockHeader start cursor.advance
  let cursor := cursor.skipBlanks.skipComment
  if !cursor.atBreakOrEnd then cursor.fail .missingCommentOrBreak .blockScalar start
  else
    let cursor := cursor.advanceLine
    let given := if increment = 0 then 0 else (max blockIndent 0).toNat + increment
    let (breaks, widest, cursor) ←
      readIndentation start given (cursor.rest.length + 1) [] 0 cursor
    let indent := if given = 0 then max (max widest (blockIndent + 1).toNat) 1 else given
    let (block, cursor) ←
      readBlockLines start literal indent (cursor.rest.length + 1) { emptyLines := breaks } cursor
    let text :=
      match chomping with
      | .strip => block.text
      | .clip => block.text ++ block.lineBreak
      | .keep => block.text ++ block.lineBreak ++ block.emptyLines
    return (⟨.scalar .block text, start, cursor.mark⟩, cursor)

/-! ## Folding of lines in quoted and plain scalars -/

/-- White space between two words of a scalar: blanks on one line, or the ends of lines. -/
structure Gap where
  blanks : List Char := []
  /-- The first end of a line. -/
  lineBreak : List Char := []
  /-- The ends of further lines. -/
  emptyLines : List Char := []
  /-- Whether the gap reaches over the end of a line. -/
  folded : Bool := false

/-- What a gap becomes in the text of a scalar. -/
def Gap.text (gap : Gap) : List Char :=
  if gap.folded then
    if gap.lineBreak.head? == some '\n' then
      if gap.emptyLines.isEmpty then [' '] else gap.emptyLines
    else gap.lineBreak ++ gap.emptyLines
  else gap.blanks

/-- Adds the end of a line to a gap. -/
def Gap.addBreak (gap : Gap) (lineBreak : List Char) : Gap :=
  if gap.folded then { gap with emptyLines := gap.emptyLines ++ lineBreak }
  else { gap with blanks := [], lineBreak, folded := true }

/-- Reads a gap.  Behind the end of a line, a tab left of `indent` is refused where a mark for the
report is given. -/
def readGap (start : Option Mark) (indent : Int) : Nat → Gap → Cursor → Except Failure (Gap × Cursor)
  | 0, gap, cursor => .ok (gap, cursor)
  | bound + 1, gap, cursor =>
    match cursor.peek? with
    | none => .ok (gap, cursor)
    | some c =>
      if isBlank c then
        match start with
        | some start =>
          if gap.folded && cursor.column < indent && c == '\t' then
            cursor.fail .tabBeforeScalar .plainScalar start
          else
            readGap (some start) indent bound
              (if gap.folded then gap else { gap with blanks := gap.blanks ++ [c] }) cursor.advance
        | none =>
          readGap none indent bound
            (if gap.folded then gap else { gap with blanks := gap.blanks ++ [c] }) cursor.advance
      else if isBreak c then
        readGap start indent bound (gap.addBreak cursor.lineBreak) cursor.advanceLine
      else .ok (gap, cursor)

/-! ## Quoted scalars -/

/-- The character that a letter stands for behind a backslash. -/
def simpleEscape? (c : Char) : Option Char :=
  match c with
  | '0' => some '\x00'
  | 'a' => some '\x07'
  | 'b' => some '\x08'
  | 't' | '\t' => some '\t'
  | 'n' => some '\n'
  | 'v' => some '\x0b'
  | 'f' => some '\x0c'
  | 'r' => some '\r'
  | 'e' => some '\x1b'
  | ' ' => some ' '
  | '"' => some '"'
  | '/' => some '/'
  | '\\' => some '\\'
  | 'N' => some '\u0085'
  | '_' => some '\u00a0'
  | 'L' => some '\u2028'
  | 'P' => some '\u2029'
  | _ => none

/-- How many digits a letter behind a backslash asks for. -/
def escapeDigits? (c : Char) : Option Nat :=
  match c with
  | 'x' => some 2
  | 'u' => some 4
  | 'U' => some 8
  | _ => none

/-- The value of hexadecimal digits, if all of them are there. -/
def hexNumber? (count : Nat) (text : List Char) : Option Nat :=
  if text.length < count then none
  else (text.take count).foldl
    (fun value c => match value, hexValue? c with
      | some value, some digit => some (value * 16 + digit)
      | _, _ => none) (some 0)

/-- Reads an escape in a scalar between double quotes; the backslash is next. -/
def readEscape (start : Mark) (cursor : Cursor) : Except Failure (Char × Cursor) :=
  match cursor.peekAt? 1 with
  | none => cursor.fail .unknownEscape .escape start
  | some c =>
    match simpleEscape? c, escapeDigits? c with
    | some c, _ => .ok (c, cursor.advanceBy 2)
    | none, none => cursor.fail .unknownEscape .escape start
    | none, some count =>
      let cursor := cursor.advanceBy 2
      match hexNumber? count cursor.rest with
      | none => cursor.fail .missingHexDigit .escape start
      | some value =>
        if (0xD800 ≤ value ∧ value ≤ 0xDFFF) ∨ 0x10FFFF < value then
          cursor.fail .invalidCodePoint .escape start
        else .ok (Char.ofNat value, cursor.advanceBy count)

/-- Reads the characters of a quoted scalar up to white space or the closing quote.  Answers whether
an escaped end of a line was read last. -/
def readQuotedWord (single : Bool) (start : Mark) :
    Nat → List Char → Cursor → Except Failure (List Char × Bool × Cursor)
  | 0, text, cursor => .ok (text, false, cursor)
  | bound + 1, text, cursor =>
    match cursor.peek? with
    | none => .ok (text, false, cursor)
    | some c =>
      if isBlank c || isBreak c then .ok (text, false, cursor)
      else if single then
        if c == '\x27' then
          if cursor.looksAt 1 '\x27' then
            readQuotedWord single start bound (text ++ [c]) (cursor.advanceBy 2)
          else .ok (text, false, cursor)
        else readQuotedWord single start bound (text ++ [c]) cursor.advance
      else if c == '"' then .ok (text, false, cursor)
      else if c == '\\' then
        if (cursor.peekAt? 1).any isBreak then .ok (text, true, cursor.advance.advanceLine)
        else do
          let (c, cursor) ← readEscape start cursor
          readQuotedWord single start bound (text ++ [c]) cursor
      else readQuotedWord single start bound (text ++ [c]) cursor.advance

/-- Reads the words and gaps of a quoted scalar up to its closing quote. -/
def readQuotedText (single : Bool) (start : Mark) :
    Nat → List Char → Cursor → Except Failure (List Char × Cursor)
  | 0, _, cursor => cursor.fail .endInScalar .quotedScalar start
  | bound + 1, text, cursor =>
    if cursor.atDocumentEdge then cursor.fail .documentMarkInScalar .quotedScalar start
    else if cursor.atEnd then cursor.fail .endInScalar .quotedScalar start
    else do
      let (text, escaped, cursor) ←
        readQuotedWord single start (cursor.rest.length + 1) text cursor
      if cursor.isAt (if single then '\x27' else '"') then return (text, cursor)
      else
        let (gap, cursor) ←
          readGap none 0 (cursor.rest.length + 1) { folded := escaped } cursor
        readQuotedText single start bound (text ++ gap.text) cursor

/-- Reads a quoted scalar; its opening quote is next. -/
def readQuotedScalar (single : Bool) (cursor : Cursor) : Except Failure (Token × Cursor) := do
  let start := cursor.mark
  let (text, cursor) ←
    readQuotedText single start (cursor.rest.length + 1) [] cursor.advance
  let cursor := cursor.advance
  return (⟨.scalar .quoted text, start, cursor.mark⟩, cursor)

/-! ## Plain scalars -/

/-- The marks of flow collections that end a plain scalar inside one. -/
def isFlowMark (c : Char) : Bool :=
  c == ',' || c == '[' || c == ']' || c == '\x7b' || c == '\x7d'

/-- Reads the characters of a plain scalar up to white space or a mark that ends it. -/
def readPlainWord (flow : Bool) (start : Mark) :
    Nat → List Char → Cursor → Except Failure (List Char × Cursor)
  | 0, word, cursor => .ok (word, cursor)
  | bound + 1, word, cursor =>
    match cursor.peek? with
    | none => .ok (word, cursor)
    | some c =>
      if isBlank c || isBreak c then .ok (word, cursor)
      else if flow && c == ':' && (cursor.peekAt? 1).any (fun d => isFlowMark d || d == '?') then
        cursor.fail .colonInFlow .plainScalar start
      else if (c == ':' && cursor.blankOrEndAt 1) || (flow && isFlowMark c) then .ok (word, cursor)
      else readPlainWord flow start bound (word ++ [c]) cursor.advance

/-- A plain scalar that has been read in part. -/
structure PlainText where
  text : List Char := []
  stop : Mark
  gap : Gap := {}

/-- Reads the words and gaps of a plain scalar. -/
def readPlainText (flow : Bool) (start : Mark) (indent : Int) :
    Nat → PlainText → Cursor → Except Failure (PlainText × Cursor)
  | 0, plain, cursor => .ok (plain, cursor)
  | bound + 1, plain, cursor =>
    if cursor.atDocumentEdge || cursor.isAt '#' then .ok (plain, cursor)
    else do
      let (word, cursor) ← readPlainWord flow start (cursor.rest.length + 1) [] cursor
      let plain : PlainText :=
        if word.isEmpty then plain
        else ⟨plain.text ++ plain.gap.text ++ word, cursor.mark, {}⟩
      if !(cursor.atBlank || cursor.atBreak) then return (plain, cursor)
      else
        let (gap, cursor) ← readGap (some start) indent (cursor.rest.length + 1) plain.gap cursor
        let plain := { plain with gap }
        if !flow && cursor.column < indent then return (plain, cursor)
        else readPlainText flow start indent bound plain cursor

/-- Reads a plain scalar inside a block of the given indentation.  Answers also whether it reached over
the end of a line. -/
def readPlainScalar (flow : Bool) (blockIndent : Int) (cursor : Cursor) :
    Except Failure (Token × Bool × Cursor) := do
  let start := cursor.mark
  let (plain, cursor) ←
    readPlainText flow start (blockIndent + 1) (cursor.rest.length + 1) { stop := start } cursor
  return (⟨.scalar .plain plain.text, start, plain.stop⟩, plain.gap.folded, cursor)

end QueryLocator.Yaml
