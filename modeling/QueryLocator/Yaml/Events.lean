import QueryLocator.Text.Bytes
import QueryLocator.Yaml.Tokens

/-! # Events of a YAML text

The structure of a text as a sequence of events: documents, collections, scalars and aliases in the
order in which they begin and end.  Values that the text leaves out are empty scalars.
-/
namespace QueryLocator.Yaml

/-- A scalar with its anchor and its tag. -/
structure ScalarEvent where
  anchor : Option (List Char)
  tag : Option (List Char)
  style : ScalarStyle
  text : List Char
  deriving DecidableEq, Repr

/-- The kinds of events. -/
inductive EventKind where
  | streamStart
  | streamEnd
  | documentStart
  | documentEnd
  | reference (name : List Char)
  | scalar (scalar : ScalarEvent)
  | sequenceStart (anchor tag : Option (List Char))
  | sequenceEnd
  | mappingStart (anchor tag : Option (List Char))
  | mappingEnd
  deriving DecidableEq, Repr

/-- An event and the place of its beginning. -/
structure Event where
  kind : EventKind
  mark : Mark
  deriving DecidableEq, Repr

/-- What is expected next.  Where a collection is open, the place of its beginning is kept for
reports. -/
inductive Expectation where
  | streamStart
  | implicitDocument
  | document
  | documentContent
  | documentEnd
  | blockNode
  | blockSequenceFirst
  | blockSequenceEntry (since : Mark)
  | indentlessSequenceEntry
  | blockMappingFirst
  | blockMappingKey (since : Mark)
  | blockMappingValue (since : Mark)
  | flowSequenceFirst
  | flowSequenceEntry (since : Mark)
  | flowPairKey (since : Mark)
  | flowPairValue (since : Mark)
  | flowPairEnd (since : Mark)
  | flowMappingFirst
  | flowMappingKey (since : Mark)
  | flowMappingValue (since : Mark)
  | flowMappingNoValue (since : Mark)
  | nothing
  deriving DecidableEq, Repr

/-- A text whose structure has been told in part. -/
structure Outline where
  tokens : List Token
  /-- The failure that ends the tokens early, if there is one. -/
  failure : Option Failure
  expected : Expectation := .streamStart
  /-- What is expected once the innermost value has ended, then the one around it, and so on. -/
  later : List Expectation := []
  /-- The abbreviations of tags in the current document. -/
  handles : List (List Char × List Char) := []

namespace Outline

/-- The result of telling one event. -/
abbrev Result := Except Failure (Event × Outline)

variable (s : Outline)

/-- The next token. -/
def peek : Except Failure Token :=
  match s.tokens, s.failure with
  | token :: _, _ => .ok token
  | [], some failure => .error failure
  | [], none => .error (.syntactic .missingStreamStart ⟨0, 0, 0⟩ none)

/-- Moves behind the next token. -/
def skip : Outline :=
  { s with tokens := s.tokens.tail }

/-- Expects something else next. -/
def expecting (expected : Expectation) : Outline :=
  { s with expected }

/-- Expects what comes after the value that has ended. -/
def pop : Outline :=
  match s.later with
  | [] => { s with expected := .nothing }
  | expected :: later => { s with expected, later }

/-- Expects something once the value that comes next has ended. -/
def afterwards (expected : Expectation) : Outline :=
  { s with later := expected :: s.later }

/-- Tells an event. -/
def tell (kind : EventKind) (mark : Mark) : Result :=
  .ok (⟨kind, mark⟩, s)

/-- Tells an empty scalar. -/
def tellEmpty (mark : Mark) : Result :=
  s.tell (.scalar ⟨none, none, .plain, []⟩) mark

/-- Reports a problem at a token. -/
def fail {α : Type} (problem : Problem) (token : Token) (during : Option (Activity × Mark)) :
    Except Failure α :=
  .error (.syntactic problem token.start during)

/-- The abbreviations that every document has. -/
def defaultHandles : List (List Char × List Char) :=
  [(['!'], ['!']), (['!', '!'], "tag:yaml.org,2002:".toList)]

/-! ## Documents -/

/-- Reads the directives in front of a document.  The first argument bounds their number. -/
def readDirectives : Nat → Bool → List (List Char × List Char) → Outline → Except Failure Outline
  | 0, _, handles, s => .ok { s with handles }
  | bound + 1, versioned, handles, s => do
    let token ← s.peek
    match token.kind with
    | .versionDirective major minor =>
      if versioned then fail .duplicateVersion token none
      else if major = 1 ∧ (minor = 1 ∨ minor = 2) then
        readDirectives bound true handles s.skip
      else fail .incompatibleVersion token none
    | .tagDirective handle tagPrefix =>
      if handles.any (·.1 = handle) then fail .duplicateTagDirective token none
      else readDirectives bound versioned (handles ++ [(handle, tagPrefix)]) s.skip
    | _ =>
      let added := defaultHandles.filter fun (handle, _) => !handles.any (·.1 = handle)
      return { s with handles := handles ++ added }

/-- The document that comes next, or the end of the text. -/
def documentStart (implicit : Bool) : Result := do
  let s := if implicit then s else
    { s with tokens := s.tokens.dropWhile (·.kind = .documentEnd) }
  let token ← s.peek
  match token.kind with
  | .streamEnd => (s.skip.expecting .nothing).tell .streamEnd token.start
  | kind =>
    let marked :=
      match kind with
      | .versionDirective .. | .tagDirective .. | .documentStart => true
      | _ => false
    let s ← readDirectives (s.tokens.length + 1) false [] s
    if implicit && !marked then
      ((s.afterwards .documentEnd).expecting .blockNode).tell .documentStart token.start
    else
      let next ← s.peek
      if next.kind = .documentStart then
        ((s.skip.afterwards .documentEnd).expecting .documentContent).tell .documentStart token.start
      else fail .missingDocumentStart next none

/-- The end of a document. -/
def documentEnd : Result := do
  let token ← s.peek
  let s := if token.kind = .documentEnd then s.skip else s
  ({ s with handles := [] }.expecting .document).tell .documentEnd token.start

/-! ## Nodes -/

/-- An anchor and a tag in front of a value. -/
structure Properties where
  anchor : Option (List Char) := none
  tag : Option TagText := none
  tagMark : Mark
  start : Mark

/-- Reads an anchor and a tag, in either order. -/
def readProperties : Except Failure (Properties × Outline) := do
  let first ← s.peek
  match first.kind with
  | .anchor name =>
    let s := s.skip
    let second ← s.peek
    match second.kind with
    | .tag tag => return (⟨some name, some tag, second.start, first.start⟩, s.skip)
    | _ => return (⟨some name, none, first.start, first.start⟩, s)
  | .tag tag =>
    let s := s.skip
    let second ← s.peek
    match second.kind with
    | .anchor name => return (⟨some name, some tag, first.start, first.start⟩, s.skip)
    | _ => return (⟨none, some tag, first.start, first.start⟩, s)
  | _ => return (⟨none, none, first.start, first.start⟩, s)

/-- The tag that a value has, its abbreviation written out. -/
def fullTag (properties : Properties) : Except Failure (Option (List Char)) :=
  match properties.tag with
  | none => .ok none
  | some ⟨[], suffix⟩ => .ok (some suffix)
  | some ⟨handle, suffix⟩ =>
    match s.handles.find? (·.1 = handle) with
    | some (_, tagPrefix) => .ok (some (tagPrefix ++ suffix))
    | none =>
      .error (.syntactic .undefinedTagHandle properties.tagMark (some (.node, properties.start)))

/-- The value that comes next.  Inside a flow collection there are no blocks; a sequence without
indentation of its own may only stand as the value of a block mapping. -/
def node (block indentless : Bool) : Result := do
  let first ← s.peek
  match first.kind with
  | .reference name => s.skip.pop.tell (.reference name) first.start
  | _ =>
    let (properties, s) ← s.readProperties
    let tag ← s.fullTag properties
    let token ← s.peek
    let start := properties.start
    match token.kind with
    | .scalar style text =>
      let tag := if tag = some ['!'] then none else tag
      s.skip.pop.tell (.scalar ⟨properties.anchor, tag, style, text⟩) start
    | .flowSequenceStart =>
      (s.expecting .flowSequenceFirst).tell (.sequenceStart properties.anchor tag) start
    | .flowMappingStart =>
      (s.expecting .flowMappingFirst).tell (.mappingStart properties.anchor tag) start
    | kind =>
      if indentless && kind = .blockEntry then
        (s.expecting .indentlessSequenceEntry).tell (.sequenceStart properties.anchor tag) start
      else if block && kind = .blockSequenceStart then
        (s.expecting .blockSequenceFirst).tell (.sequenceStart properties.anchor tag) start
      else if block && kind = .blockMappingStart then
        (s.expecting .blockMappingFirst).tell (.mappingStart properties.anchor tag) start
      else if properties.anchor.isSome || tag.isSome then
        s.pop.tell (.scalar ⟨properties.anchor, tag, .plain, []⟩) start
      else
        fail .missingNode token (some (if block then .blockNode else .flowNode, start))

/-! ## Block collections -/

/-- Whether a token is of one of the given kinds. -/
def isOneOf (token : Token) (kinds : List TokenKind) : Bool :=
  kinds.contains token.kind

/-- An entry of a block sequence, or its end. -/
def blockSequenceEntry (since : Mark) : Result := do
  let token ← s.peek
  match token.kind with
  | .blockEntry =>
    let s := s.skip
    let next ← s.peek
    if isOneOf next [.blockEntry, .blockEnd] then
      (s.expecting (.blockSequenceEntry since)).tellEmpty token.stop
    else (s.afterwards (.blockSequenceEntry since)).node true false
  | .blockEnd => s.skip.pop.tell .sequenceEnd token.start
  | _ => fail .missingDash token (some (.blockCollection, since))

/-- An entry of a sequence without indentation of its own, or its end. -/
def indentlessSequenceEntry : Result := do
  let token ← s.peek
  match token.kind with
  | .blockEntry =>
    let s := s.skip
    let next ← s.peek
    if isOneOf next [.blockEntry, .key, .value, .blockEnd] then
      (s.expecting .indentlessSequenceEntry).tellEmpty token.stop
    else (s.afterwards .indentlessSequenceEntry).node true false
  | _ => s.pop.tell .sequenceEnd token.start

/-- A key of a block mapping, or its end. -/
def blockMappingKey (since : Mark) : Result := do
  let token ← s.peek
  match token.kind with
  | .key =>
    let s := s.skip
    let next ← s.peek
    if isOneOf next [.key, .value, .blockEnd] then
      (s.expecting (.blockMappingValue since)).tellEmpty token.stop
    else (s.afterwards (.blockMappingValue since)).node true true
  | .blockEnd => s.skip.pop.tell .mappingEnd token.start
  | _ => fail .missingKey token (some (.blockMapping, since))

/-- A value of a block mapping. -/
def blockMappingValue (since : Mark) : Result := do
  let token ← s.peek
  match token.kind with
  | .value =>
    let s := s.skip
    let next ← s.peek
    if isOneOf next [.key, .value, .blockEnd] then
      (s.expecting (.blockMappingKey since)).tellEmpty token.stop
    else (s.afterwards (.blockMappingKey since)).node true true
  | _ => (s.expecting (.blockMappingKey since)).tellEmpty token.start

/-! ## Flow collections -/

/-- An entry of a flow sequence, or its end. -/
def flowSequenceEntry (first : Bool) (since : Mark) : Result := do
  let token ← s.peek
  let s ←
    if first || token.kind = .flowSequenceEnd then pure s
    else if token.kind = .flowEntry then pure s.skip
    else fail .missingFlowSequenceEnd token (some (.flowSequence, since))
  let token ← s.peek
  match token.kind with
  | .flowSequenceEnd => s.skip.pop.tell .sequenceEnd token.start
  | .key => (s.skip.expecting (.flowPairKey since)).tell (.mappingStart none none) token.start
  | _ => (s.afterwards (.flowSequenceEntry since)).node false false

/-- The key of a single pair in a flow sequence.  A mark in the place of the key is passed over. -/
def flowPairKey (since : Mark) : Result := do
  let token ← s.peek
  if isOneOf token [.value, .flowEntry, .flowSequenceEnd] then
    (s.skip.expecting (.flowPairValue since)).tellEmpty token.stop
  else (s.afterwards (.flowPairValue since)).node false false

/-- The value of a single pair in a flow sequence. -/
def flowPairValue (since : Mark) : Result := do
  let token ← s.peek
  if token.kind = .value then
    let s := s.skip
    let next ← s.peek
    if isOneOf next [.flowEntry, .flowSequenceEnd] then
      (s.expecting (.flowPairEnd since)).tellEmpty next.start
    else (s.afterwards (.flowPairEnd since)).node false false
  else (s.expecting (.flowPairEnd since)).tellEmpty token.start

/-- The end of a single pair in a flow sequence. -/
def flowPairEnd (since : Mark) : Result := do
  let token ← s.peek
  (s.expecting (.flowSequenceEntry since)).tell .mappingEnd token.start

/-- A key of a flow mapping, or its end. -/
def flowMappingKey (first : Bool) (since : Mark) : Result := do
  let token ← s.peek
  let s ←
    if first || token.kind = .flowMappingEnd then pure s
    else if token.kind = .flowEntry then pure s.skip
    else fail .missingFlowMappingEnd token (some (.flowMapping, since))
  let token ← s.peek
  match token.kind with
  | .flowMappingEnd => s.skip.pop.tell .mappingEnd token.start
  | .key =>
    let s := s.skip
    let next ← s.peek
    if isOneOf next [.value, .flowEntry, .flowMappingEnd] then
      (s.expecting (.flowMappingValue since)).tellEmpty next.start
    else (s.afterwards (.flowMappingValue since)).node false false
  | _ => (s.afterwards (.flowMappingNoValue since)).node false false

/-- A value of a flow mapping. -/
def flowMappingValue (since : Mark) : Result := do
  let token ← s.peek
  if token.kind = .value then
    let s := s.skip
    let next ← s.peek
    if isOneOf next [.flowEntry, .flowMappingEnd] then
      (s.expecting (.flowMappingKey since)).tellEmpty next.start
    else (s.afterwards (.flowMappingKey since)).node false false
  else (s.expecting (.flowMappingKey since)).tellEmpty token.start

/-! ## All events -/

/-- Goes inside a collection whose first token is next. -/
def enter (entry : Mark → Outline → Result) : Result := do
  let token ← s.peek
  entry token.start s.skip

/-- Tells the next event. -/
def next : Result :=
  match s.expected with
  | .streamStart => do
    let token ← s.peek
    if token.kind = .streamStart then
      (s.skip.expecting .implicitDocument).tell .streamStart token.start
    else fail .missingStreamStart token none
  | .implicitDocument => s.documentStart true
  | .document => s.documentStart false
  | .documentContent => do
    let token ← s.peek
    match token.kind with
    | .versionDirective .. | .tagDirective .. | .documentStart | .documentEnd | .streamEnd =>
      s.pop.tellEmpty token.start
    | _ => s.node true false
  | .documentEnd => s.documentEnd
  | .blockNode => s.node true false
  | .blockSequenceFirst => s.enter fun since s => s.blockSequenceEntry since
  | .blockSequenceEntry since => s.blockSequenceEntry since
  | .indentlessSequenceEntry => s.indentlessSequenceEntry
  | .blockMappingFirst => s.enter fun since s => s.blockMappingKey since
  | .blockMappingKey since => s.blockMappingKey since
  | .blockMappingValue since => s.blockMappingValue since
  | .flowSequenceFirst => s.enter fun since s => s.flowSequenceEntry true since
  | .flowSequenceEntry since => s.flowSequenceEntry false since
  | .flowPairKey since => s.flowPairKey since
  | .flowPairValue since => s.flowPairValue since
  | .flowPairEnd since => s.flowPairEnd since
  | .flowMappingFirst => s.enter fun since s => s.flowMappingKey true since
  | .flowMappingKey since => s.flowMappingKey false since
  | .flowMappingValue since => s.flowMappingValue since
  | .flowMappingNoValue since => do
    let token ← s.peek
    (s.expecting (.flowMappingKey since)).tellEmpty token.start
  | .nothing => .error (.syntactic .missingStreamStart ⟨0, 0, 0⟩ none)

/-- Tells all events up to the end of the text, and the failure that ends them early, if there is
one.  The first argument bounds their number. -/
def tellAll : Nat → Outline → List Event × Option Failure
  | 0, _ => ([], none)
  | bound + 1, s =>
    match s.next with
    | .error failure => ([], some failure)
    | .ok (event, s) =>
      if event.kind = .streamEnd then ([event], none)
      else
        let (events, failure) := tellAll bound s
        (event :: events, failure)

end Outline

/-- The events of a text, and the failure that ends them early, if there is one.  Control characters
are looked for before anything else. -/
def events (text : List Char) : List Event × Option Failure :=
  match text.findIdx? fun c => !isAllowed c with
  | some place => ([], some (.controlCharacter (Text.byteSize (text.take place))))
  | none =>
    let bound := 4 * text.length + 16
    let (tokens, failure) := (Tokens.ofText text).handOut bound
    Outline.tellAll (4 * tokens.length + 16) { tokens, failure }

end QueryLocator.Yaml
