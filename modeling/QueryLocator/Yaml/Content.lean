import QueryLocator.Yaml.Meaning

/-! # The content of a YAML text

The first document of a text as plain data.  An alias stands for the value that has its anchor; what
an anchor in a document means is settled when the whole document is known.  Collections nest up to
a limit, and so does the use of aliases.
-/
namespace QueryLocator.Yaml

/-- The way to a value from the root of a document. -/
inductive Route where
  | root
  | item (parent : Route) (index : Nat)
  | member (parent : Route) (key : String)
  /-- The value of a key that is not a scalar. -/
  | unnamed (parent : Route)

namespace Route

/-- Whether the route is that of the root. -/
def isRoot : Route → Bool
  | root => true
  | _ => false

/-- The text of a route. -/
def text : Route → String
  | root => "."
  | item parent index => s!"{parent.text}[{index}]"
  | member parent key => (if parent.isRoot then "" else parent.text ++ ".") ++ key
  | unnamed parent => (if parent.isRoot then "" else parent.text ++ ".") ++ "?"

end Route

/-- A failure of a scalar at its place. -/
def ScalarFault.located (fault : ScalarFault) (route : Route) (place : Mark) : Failure :=
  match fault with
  | ownTag => .taggedValue route.text place
  | unfit mismatch => .unfit mismatch route.text place
  | large value type => .largeInteger value type route.text place

/-- The parts of values in the order of the text.  An alias has the number of its anchor. -/
inductive Part where
  /-- What a text without a value stands for. -/
  | nothing
  | reference (number : Nat)
  | scalar (scalar : ScalarEvent)
  | sequenceStart (tag : Option (List Char))
  | sequenceEnd
  | mappingStart (tag : Option (List Char))
  | mappingEnd

/-- The content of the first document of a text. -/
structure Content where
  /-- The parts of its value, with their places. -/
  parts : List (Part × Mark) := []
  /-- The numbers that anchors have, with the number of parts before the value; later ones come
  first. -/
  targets : List (Nat × Nat) := []
  /-- The failure that ends the document early, if there is one. -/
  failure : Option Failure := none
  /-- Whether more than the end of the text follows the document. -/
  continues : Bool := false

namespace Content

/-- Anchors with their numbers, latest first. -/
abbrev Anchors := List (List Char × Nat)

/-- The number of different anchors. -/
def count (anchors : Anchors) : Nat :=
  (anchors.map Prod.fst).eraseDups.length

/-- The content with one more part.  Parts are collected in reverse. -/
def push (content : Content) (part : Part) (mark : Mark) : Content :=
  { content with parts := (part, mark) :: content.parts }

/-- Notes the anchor of the value that comes next.  Its number is the number of different anchors
before it. -/
def anchored (content : Content) (anchors : Anchors) : Option (List Char) → Content × Anchors
  | none => (content, anchors)
  | some name =>
    let number := count anchors
    ({ content with targets := (number, content.parts.length) :: content.targets },
      (name, number) :: anchors)

/-- Collects the parts of the first document.  They are in reverse. -/
def collect (failure : Option Failure) :
    List Event → Anchors → Content → Content
  | [], _, content => { content with failure }
  | ⟨kind, mark⟩ :: rest, anchors, content =>
    match kind with
    | .streamStart | .documentStart => collect failure rest anchors content
    | .streamEnd => if content.parts.isEmpty then content.push .nothing mark else content
    | .documentEnd => { content with continues := rest.head?.all (·.kind ≠ .streamEnd) }
    | .reference name =>
      match anchors.find? (·.1 = name) with
      | some (_, number) => collect failure rest anchors (content.push (.reference number) mark)
      | none => { content with failure := some (.unknownAnchor mark) }
    | .scalar scalar =>
      let (content, anchors) := content.anchored anchors scalar.anchor
      collect failure rest anchors (content.push (.scalar scalar) mark)
    | .sequenceStart anchor tag =>
      let (content, anchors) := content.anchored anchors anchor
      collect failure rest anchors (content.push (.sequenceStart tag) mark)
    | .sequenceEnd => collect failure rest anchors (content.push .sequenceEnd mark)
    | .mappingStart anchor tag =>
      let (content, anchors) := content.anchored anchors anchor
      collect failure rest anchors (content.push (.mappingStart tag) mark)
    | .mappingEnd => collect failure rest anchors (content.push .mappingEnd mark)

/-- The content of a text. -/
def ofText (text : List Char) : Content :=
  let (events, failure) := Yaml.events text
  let content := collect failure events [] {}
  { content with parts := content.parts.reverse }

/-! ## Reading the value -/

/-- What is left to read, and how many aliases have been used. -/
structure Rest where
  parts : List (Part × Mark)
  jumps : Nat

/-- Reads one value. -/
abbrev ValueReader := Route → Rest → Except Failure (Datum × Rest)

variable (content : Content)

/-- The failure of a document that ends inside a value. -/
def ending : Failure :=
  content.failure.getD (.syntactic .missingStreamStart ⟨0, 0, 0⟩ none)

/-- Reads the items of a sequence up to its end.  The first number bounds how many there are. -/
def items (read : ValueReader) (route : Route) : Nat → Nat → Rest → Except Failure (List Datum × Rest)
  | 0, _, _ => .error content.ending
  | bound + 1, index, rest =>
    match rest.parts with
    | [] => .error content.ending
    | (.sequenceEnd, _) :: parts => .ok ([], { rest with parts })
    | _ => do
      let (item, rest) ← read (.item route index) rest
      let (more, rest) ← items read route bound (index + 1) rest
      return (item :: more, rest)

/-- Reads the members of a mapping up to its end.  The number bounds how many there are. -/
def members (read : ValueReader) (route : Route) :
    Nat → Rest → Except Failure (List (Datum × Datum) × Rest)
  | 0, _ => .error content.ending
  | bound + 1, rest =>
    match rest.parts with
    | [] => .error content.ending
    | (.mappingEnd, _) :: parts => .ok ([], { rest with parts })
    | (part, _) :: _ => do
      let (key, rest) ← read route rest
      let valueRoute :=
        match part with
        | .scalar scalar => .member route (String.ofList scalar.text)
        | _ => .unnamed route
      let (value, rest) ← read valueRoute rest
      let (more, rest) ← members read route bound rest
      return ((key, value) :: more, rest)

/-- Reads a value that is not an alias.  Collections need a reader for the values inside. -/
def plainValue (inner : Option ValueReader) : ValueReader := fun route rest =>
  match rest.parts with
  | [] => .error content.ending
  | (part, mark) :: parts =>
    let rest := { rest with parts }
    let bound := parts.length + 1
    match part with
    | .nothing => .ok (.null, rest)
    | .scalar scalar =>
      match scalar.datum with
      | .ok datum => .ok (datum, rest)
      | .error fault => .error (fault.located route mark)
    | .sequenceStart tag =>
      if isOwnTag tag then .error (ScalarFault.ownTag.located route mark)
      else
        match inner with
        | none => .error (.nestingLimit mark)
        | some read => (content.items read route bound 0 rest).map fun (found, rest) =>
          (.sequence found, rest)
    | .mappingStart tag =>
      if isOwnTag tag then .error (ScalarFault.ownTag.located route mark)
      else
        match inner with
        | none => .error (.nestingLimit mark)
        | some read => (content.members read route bound rest).map fun (found, rest) =>
          (.map found, rest)
    | .reference _ | .sequenceEnd | .mappingEnd => .error content.ending

/-- Reads a value.  An alias is read where its anchor is. -/
def value (inner : Option ValueReader) : ValueReader := fun route rest =>
  match rest.parts with
  | (.reference number, _) :: parts =>
    let jumps := rest.jumps + 1
    if 100 * content.parts.length < jumps then .error .repetitionLimit
    else
      match content.targets.find? (·.1 = number) with
      | none => .error content.ending
      | some (_, place) =>
        (content.plainValue inner route ⟨content.parts.drop place, jumps⟩).map fun (datum, after) =>
          (datum, ⟨parts, after.jumps⟩)
  | _ => content.plainValue inner route rest

/-- Reads a value whose collections nest up to a depth. -/
def valueWithin : Nat → ValueReader
  | 0 => content.value none
  | depth + 1 => content.value (some (valueWithin depth))

/-- How deep collections may nest. -/
def maxDepth : Nat := 128

/-- The value of the document. -/
def datum : Except Failure Datum :=
  (content.valueWithin maxDepth .root ⟨content.parts, 0⟩).map Prod.fst

end Content

/-- Reads a text with a single document whose value fits. -/
def read {α : Type} (fit : Datum → Except Mismatch α) (text : List Char) : Except Failure α :=
  let content := Content.ofText text
  match content.datum with
  | .error failure => .error failure
  | .ok datum =>
    match fit datum, content.failure with
    | .error mismatch, _ => .error (.shape mismatch)
    | .ok _, some failure => .error failure
    | .ok value, none => if content.continues then .error .severalDocuments else .ok value

end QueryLocator.Yaml
