import QueryLocator.Yaml.Token

/-! # Anchors, tags and directives

An anchor names a value, an alias stands for a value that has been named, a tag tells the type of a
value, and a directive at the head of a document tells its version or abbreviates tags.
-/
namespace QueryLocator.Yaml

open Cursor

/-- The characters that may follow a name besides white space. -/
def endsName (c : Char) : Bool :=
  ['?', ':', ',', ']', '\x7d', '%', '@', '`'].contains c

/-- Reads the name of an anchor or an alias; the mark in front of it is next. -/
def readName (isAlias : Bool) (cursor : Cursor) : Except Failure (Token × Cursor) :=
  let start := cursor.mark
  let cursor := cursor.advance
  let name := cursor.takeWhile isWord
  let cursor := cursor.skipWhile isWord
  if name.isEmpty || !(cursor.blankOrEndAt 0 || cursor.peek?.any endsName) then
    cursor.fail .missingAnchorName (if isAlias then .reference else .anchor) start
  else
    .ok (⟨if isAlias then .reference name else .anchor name, start, cursor.mark⟩, cursor)

/-! ## Tags -/

/-- The characters of a tag.  Commas and brackets only belong to a tag between angle brackets. -/
def isUriChar (verbatim : Bool) (c : Char) : Bool :=
  isWord c ||
    [';', '/', '?', ':', '@', '&', '=', '+', '$', '.', '%', '!', '~', '*', '\x27', '(', ')'].contains
      c ||
    (verbatim && (c == ',' || c == '[' || c == ']'))

/-- How many bytes a character has whose first byte is given; none if no character begins so. -/
def sequenceLength (octet : Nat) : Nat :=
  if octet < 0x80 then 1
  else if 0xC0 ≤ octet ∧ octet < 0xE0 then 2
  else if 0xE0 ≤ octet ∧ octet < 0xF0 then 3
  else if 0xF0 ≤ octet ∧ octet < 0xF8 then 4
  else 0

/-- Reads one byte that is written as a percent sign and two digits. -/
def readOctet (activity : Activity) (start : Mark) (cursor : Cursor) :
    Except Failure (Nat × Cursor) :=
  match cursor.rest with
  | '%' :: a :: b :: _ =>
    match hexValue? a, hexValue? b with
    | some a, some b => .ok (a * 16 + b, cursor)
    | _, _ => cursor.fail .missingUriOctet activity start
  | _ => cursor.fail .missingUriOctet activity start

/-- Reads the further bytes of a character. -/
def readOctets (activity : Activity) (start : Mark) :
    Nat → Nat → Cursor → Except Failure (Nat × Cursor)
  | 0, code, cursor => .ok (code, cursor)
  | count + 1, code, cursor => do
    let (octet, cursor) ← readOctet activity start cursor
    if 0x80 ≤ octet ∧ octet < 0xC0 then
      readOctets activity start count (code * 64 + (octet - 0x80)) (cursor.advanceBy 3)
    else cursor.fail .badTrailingOctet activity start

/-- Reads a character that is written as percent signs and digits. -/
def readUriEscape (activity : Activity) (start : Mark) (cursor : Cursor) :
    Except Failure (Char × Cursor) := do
  let (octet, cursor) ← readOctet activity start cursor
  let length := sequenceLength octet
  if length = 0 then cursor.fail .badLeadingOctet activity start
  else
    let leading := if length = 1 then octet else octet % Nat.pow 2 (7 - length)
    let (code, cursor) ← readOctets activity start (length - 1) leading (cursor.advanceBy 3)
    return (Char.ofNat code, cursor)

/-- Reads the characters of a tag. -/
def readUriChars (verbatim : Bool) (activity : Activity) (start : Mark) :
    Nat → List Char → Cursor → Except Failure (List Char × Cursor)
  | 0, text, cursor => .ok (text, cursor)
  | bound + 1, text, cursor =>
    match cursor.peek? with
    | none => .ok (text, cursor)
    | some c =>
      if c == '%' then do
        let (c, cursor) ← readUriEscape activity start cursor
        readUriChars verbatim activity start bound (text ++ [c]) cursor
      else if isUriChar verbatim c then
        readUriChars verbatim activity start bound (text ++ [c]) cursor.advance
      else .ok (text, cursor)

/-- Reads the characters of a tag behind those that have been read already, `head`.  The exclamation
mark at its beginning is left out of the tag, but it counts as a character of it. -/
def readUri (verbatim : Bool) (activity : Activity) (head : List Char) (start : Mark)
    (cursor : Cursor) : Except Failure (List Char × Cursor) := do
  let (text, cursor) ←
    readUriChars verbatim activity start (cursor.rest.length + 1) [] cursor
  if head.isEmpty && text.isEmpty then cursor.fail .missingTagUri activity start
  else return (head.drop 1 ++ text, cursor)

/-- Reads the handle of a tag. -/
def readHandle (directive : Bool) (start : Mark) (cursor : Cursor) :
    Except Failure (List Char × Cursor) :=
  if !cursor.isAt '!' then
    cursor.fail .missingTagBang (if directive then .tagDirectiveStart else .tag) start
  else
    let cursor := cursor.advance
    let name := cursor.takeWhile isWord
    let cursor := cursor.skipWhile isWord
    if cursor.isAt '!' then .ok ('!' :: name ++ ['!'], cursor.advance)
    else if directive && !name.isEmpty then
      cursor.fail .missingTagBang .tagDirectiveHandle start
    else .ok ('!' :: name, cursor)

/-- Reads a tag up to its end. -/
def readTagText (start : Mark) (cursor : Cursor) : Except Failure (TagText × Cursor) := do
  if cursor.looksAt 1 '<' then
    let (suffix, cursor) ← readUri true .tagUri [] start (cursor.advanceBy 2)
    if cursor.isAt '>' then return (⟨[], suffix⟩, cursor.advance)
    else cursor.fail .missingTagEnd .tag start
  else
    let (handle, cursor) ← readHandle false start cursor
    if 1 < handle.length ∧ handle.getLast? = some '!' then
      let (suffix, cursor) ← readUri false .tagUri [] start cursor
      return (⟨handle, suffix⟩, cursor)
    else
      let (suffix, cursor) ← readUri false .tagUri handle start cursor
      if suffix.isEmpty then return (⟨[], ['!']⟩, cursor)
      else return (⟨['!'], suffix⟩, cursor)

/-- Reads a tag; its exclamation mark is next. -/
def readTag (flow : Bool) (cursor : Cursor) : Except Failure (Token × Cursor) := do
  let start := cursor.mark
  let (tag, cursor) ← readTagText start cursor
  if cursor.blankOrEndAt 0 || (flow && cursor.isAt ',') then
    return (⟨.tag tag, start, cursor.mark⟩, cursor)
  else cursor.fail .missingWhitespaceOrBreak .tag start

/-! ## Directives -/

/-- The number that digits stand for. -/
def digitsValue (digits : List Char) : Nat :=
  digits.foldl (fun value c => value * 10 + (c.toNat - 0x30)) 0

/-- Reads a number of a version, which has nine digits at most. -/
def readVersionNumber (start : Mark) (cursor : Cursor) : Except Failure (Nat × Cursor) :=
  let digits := cursor.takeWhile Char.isDigit
  if 9 < digits.length then
    (cursor.advanceBy 9).fail .longVersionNumber .versionDirective start
  else if digits.isEmpty then cursor.fail .missingVersionNumber .versionDirective start
  else .ok (digitsValue digits, cursor.skipWhile Char.isDigit)

/-- Reads the value of a version directive. -/
def readVersion (start : Mark) (cursor : Cursor) : Except Failure (TokenKind × Cursor) := do
  let (major, cursor) ← readVersionNumber start cursor.skipBlanks
  if !cursor.isAt '.' then cursor.fail .missingVersionPoint .versionDirective start
  else
    let (minor, cursor) ← readVersionNumber start cursor.advance
    return (.versionDirective major minor, cursor)

/-- Reads the value of a tag directive. -/
def readTagDirective (start : Mark) (cursor : Cursor) : Except Failure (TokenKind × Cursor) := do
  let (handle, cursor) ← readHandle true start cursor.skipBlanks
  if !cursor.atBlank then cursor.fail .missingWhitespace .tagDirective start
  else
    let (tagPrefix, cursor) ← readUri true .tagDirectivePrefix [] start cursor.skipBlanks
    if cursor.blankOrEndAt 0 then return (.tagDirective handle tagPrefix, cursor)
    else cursor.fail .missingWhitespaceOrBreak .tagDirective start

/-- Reads a directive up to the end of its line; its percent sign is next. -/
def readDirective (cursor : Cursor) : Except Failure (Token × Cursor) := do
  let start := cursor.mark
  let cursor := cursor.advance
  let name := cursor.takeWhile isWord
  let cursor := cursor.skipWhile isWord
  if name.isEmpty then cursor.fail .missingDirectiveName .directive start
  else if !cursor.blankOrEndAt 0 then cursor.fail .nonAlphabeticDirective .directive start
  else
    let (kind, cursor) ←
      if name = ['Y', 'A', 'M', 'L'] then readVersion start cursor
      else if name = ['T', 'A', 'G'] then readTagDirective start cursor
      else cursor.fail .unknownDirective .directive start
    let stop := cursor.mark
    let cursor := cursor.skipBlanks.skipComment
    if cursor.atBreakOrEnd then return (⟨kind, start, stop⟩, cursor.advanceLine)
    else cursor.fail .missingCommentOrBreak .directive start

end QueryLocator.Yaml
