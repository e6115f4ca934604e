import QueryLocator.Proofs.WireLaws

/-! # What is written is read back

The values that leave the console come back from what is written for them, and what was read comes back
from what is written for it (`Wire.values_round_trip`).  Which value a text stands for can be told from
the JSON value in it, so neither white space nor escapes count, and of an object only the members that
are fields count, wherever they stand (`Json.Fieldwise`).
-/
namespace QueryLocator

open Json JsonShape

/-! ## Words -/

/-- The grade that a word stands for. -/
def Severity.ofWord? : String → Option Severity
  | "error" => some .error
  | _ => none

/-- The grade that a JSON value stands for. -/
def Severity.presented? (json : Json) : Option Severity :=
  json.word?.bind ofWord?

def Severity.choiceLaw : Wire.ChoiceLaw Severity where
  words := ["error"]
  word _ := "error"
  ofWord? := Severity.ofWord?
  shape_eq := rfl
  toJson_eq | .error => rfl
  ofJson?_string _ := rfl
  ofWord?_word | .error => rfl
  mem_words _ := by simp
  exists_of_mem found h := ⟨.error, (List.mem_singleton.mp h).symm⟩
  word_of_ofWord? found value h := by
    unfold ofWord? at h
    split at h
    next => rfl
    next => cases h

instance : Wire.Lawful Severity :=
  Severity.choiceLaw.lawful

/-- The type of operations that a JSON value stands for. -/
def OperationType.presented? (json : Json) : Option OperationType :=
  json.word?.bind ofKeyword?

def OperationType.choiceLaw : Wire.ChoiceLaw OperationType where
  words := ["query", "mutation", "subscription"]
  word := keyword
  ofWord? := ofKeyword?
  shape_eq := rfl
  toJson_eq _ := rfl
  ofJson?_string _ := rfl
  ofWord?_word value := by cases value <;> rfl
  mem_words value := by cases value <;> decide
  exists_of_mem found h := by
    simp only [List.mem_cons, List.not_mem_nil, or_false] at h
    rcases h with rfl | rfl | rfl
    · exact ⟨.query, rfl⟩
    · exact ⟨.mutation, rfl⟩
    · exact ⟨.subscription, rfl⟩
  word_of_ofWord? found value h := by
    unfold ofKeyword? at h
    split at h <;> cases h <;> rfl

instance : Wire.Lawful OperationType :=
  OperationType.choiceLaw.lawful

/-- The kind that a JSON value stands for. -/
def DefinitionKind.presented? (json : Json) : Option DefinitionKind :=
  json.word?.bind ofLabel?

def DefinitionKind.choiceLaw : Wire.ChoiceLaw DefinitionKind where
  words := ["query", "mutation", "subscription", "fragment", "unknown"]
  word := label
  ofWord? := ofLabel?
  shape_eq := rfl
  toJson_eq _ := rfl
  ofJson?_string _ := rfl
  ofWord?_word value := by cases value <;> rfl
  mem_words value := by cases value <;> decide
  exists_of_mem found h := by
    simp only [List.mem_cons, List.not_mem_nil, or_false] at h
    rcases h with rfl | rfl | rfl | rfl | rfl
    · exact ⟨.query, rfl⟩
    · exact ⟨.mutation, rfl⟩
    · exact ⟨.subscription, rfl⟩
    · exact ⟨.fragment, rfl⟩
    · exact ⟨.unknown, rfl⟩
  word_of_ofWord? found value h := by
    unfold ofLabel? at h
    split at h <;> cases h <;> rfl

instance : Wire.Lawful DefinitionKind :=
  DefinitionKind.choiceLaw.lawful

/-! ## Positions, spans and ranges -/

/-- Both counts have 64 bits. -/
def Position.InRange (position : Position) : Prop :=
  position.line ≤ maxUnsigned ∧ position.character ≤ maxUnsigned

/-- The position that the values of its fields stand for. -/
def Position.ofFields? : List Json → Option Position
  | [line, character] => do return ⟨← Wire.count? line, ← Wire.count? character⟩
  | _ => none

/-- The position that a JSON value stands for. -/
def Position.presented? (json : Json) : Option Position :=
  (json.fields? ["line", "character"]).bind ofFields?

def Position.recordLaw : Wire.RecordLaw Position where
  name := "Position"
  parts := [Wire.countPart "line", Wire.countPart "character"]
  InRange := InRange
  ofFields? := ofFields?
  members position :=
    [("line", .ofNat position.line), ("character", .ofNat position.character)]
  names_nodup := by decide
  shape_eq := rfl
  toJson_eq _ := rfl
  ofJson?_members position := by simp [Wire.ofJson?, Wire.values?]
  exists_of_members found h := by
    obtain ⟨_, _, hfirst, hothers, rfl⟩ := members_cons_iff.mp h
    obtain ⟨_, _, hsecond, hnone, rfl⟩ := members_cons_iff.mp hothers
    obtain rfl := members_nil_iff.mp hnone
    obtain ⟨line, hline, rfl⟩ := gives_count hfirst
    obtain ⟨character, hcharacter, rfl⟩ := gives_count hsecond
    exact ⟨⟨line, character⟩, ⟨hline, hcharacter⟩, rfl⟩
  canonical position :=
    .cons ⟨rfl, Wire.countPart_ofNat ..⟩ (.cons ⟨rfl, Wire.countPart_ofNat ..⟩ .nil)
  ofJson?_ofItems
    | [line, character], _ => by
      simp only [Part.ofItems, Wire.countPart, ofFields?]
      cases Wire.count? line <;> cases Wire.count? character <;> simp [Wire.ofJson?, Wire.values?]
  isIntegral position h := by
    simp [membersEverywhere, Wire.isIntegral_ofNat h.1, Wire.isIntegral_ofNat h.2]
  nesting position := show 0 < nestingLimit by decide

instance : Wire.Lawful Position :=
  Position.recordLaw.lawful

/-- Both bounds have 64 bits. -/
def Span.InRange (span : Span) : Prop :=
  span.start ≤ maxUnsigned ∧ span.stop ≤ maxUnsigned

/-- The span that the values of its fields stand for. -/
def Span.ofFields? : List Json → Option Span
  | [start, stop] => do return ⟨← Wire.count? start, ← Wire.count? stop⟩
  | _ => none

/-- The span that a JSON value stands for. -/
def Span.presented? (json : Json) : Option Span :=
  (json.fields? ["start", "end"]).bind ofFields?

def Span.recordLaw : Wire.RecordLaw Span where
  name := "Span"
  parts := [Wire.countPart "start", Wire.countPart "end"]
  InRange := InRange
  ofFields? := ofFields?
  members span := [("start", .ofNat span.start), ("end", .ofNat span.stop)]
  names_nodup := by decide
  shape_eq := rfl
  toJson_eq _ := rfl
  ofJson?_members span := by simp [Wire.ofJson?, Wire.values?]
  exists_of_members found h := by
    obtain ⟨_, _, hfirst, hothers, rfl⟩ := members_cons_iff.mp h
    obtain ⟨_, _, hsecond, hnone, rfl⟩ := members_cons_iff.mp hothers
    obtain rfl := members_nil_iff.mp hnone
    obtain ⟨start, hstart, rfl⟩ := gives_count hfirst
    obtain ⟨stop, hstop, rfl⟩ := gives_count hsecond
    exact ⟨⟨start, stop⟩, ⟨hstart, hstop⟩, rfl⟩
  canonical span :=
    .cons ⟨rfl, Wire.countPart_ofNat ..⟩ (.cons ⟨rfl, Wire.countPart_ofNat ..⟩ .nil)
  ofJson?_ofItems
    | [start, stop], _ => by
      simp only [Part.ofItems, Wire.countPart, ofFields?]
      cases Wire.count? start <;> cases Wire.count? stop <;> simp [Wire.ofJson?, Wire.values?]
  isIntegral span h := by
    simp [membersEverywhere, Wire.isIntegral_ofNat h.1, Wire.isIntegral_ofNat h.2]
  nesting span := show 0 < nestingLimit by decide

instance : Wire.Lawful Span :=
  Span.recordLaw.lawful

/-- Both positions are in range. -/
def Range.InRange (range : Range) : Prop :=
  range.start.InRange ∧ range.stop.InRange

/-- The range that the values of its fields stand for. -/
def Range.ofFields? : List Json → Option Range
  | [start, stop] => do return ⟨← Position.presented? start, ← Position.presented? stop⟩
  | _ => none

/-- The range that a JSON value stands for. -/
def Range.presented? (json : Json) : Option Range :=
  (json.fields? ["start", "end"]).bind ofFields?

theorem Position.presented?_eq (json : Json) :
    presented? json = (Wire.Lawful.form Position json).bind Wire.ofJson? :=
  (Wire.Lawful.ofJson?_form (α := Position) json).symm

def Range.recordLaw : Wire.RecordLaw Range where
  name := "Range"
  parts := [Wire.lawfulPart "start" Position, Wire.lawfulPart "end" Position]
  InRange := InRange
  ofFields? := ofFields?
  members range := [("start", Wire.toJson range.start), ("end", Wire.toJson range.stop)]
  names_nodup := by decide
  shape_eq := rfl
  toJson_eq _ := rfl
  ofJson?_members range := by
    change (do return ⟨← Wire.ofJson? (Wire.toJson range.start),
      ← Wire.ofJson? (Wire.toJson range.stop)⟩) = some range
    rw [Wire.Lawful.ofJson?_toJson, Wire.Lawful.ofJson?_toJson]
    rfl
  exists_of_members found h := by
    obtain ⟨_, _, hfirst, hothers, rfl⟩ := members_cons_iff.mp h
    obtain ⟨_, _, hsecond, hnone, rfl⟩ := members_cons_iff.mp hothers
    obtain rfl := members_nil_iff.mp hnone
    obtain ⟨start, hstart, rfl⟩ := Wire.Lawful.gives (α := Position) hfirst
    obtain ⟨stop, hstop, rfl⟩ := Wire.Lawful.gives (α := Position) hsecond
    exact ⟨⟨start, stop⟩, ⟨hstart, hstop⟩, rfl⟩
  canonical range :=
    .cons ⟨rfl, Wire.Lawful.form_toJson range.start⟩
      (.cons ⟨rfl, Wire.Lawful.form_toJson range.stop⟩ .nil)
  ofJson?_ofItems
    | [start, stop], _ => by
      simp only [Part.ofItems, Wire.lawfulPart, ofFields?, Position.presented?_eq]
      cases Wire.Lawful.form Position start with
      | none => rfl
      | some start =>
        cases Wire.Lawful.form Position stop with
        | none => simp
        | some stop => rfl
  isIntegral range h := by
    have hstart := Wire.Lawful.isIntegral_toJson range.start h.1
    have hstop := Wire.Lawful.isIntegral_toJson range.stop h.2
    simp [membersEverywhere, hstart, hstop]
  nesting range := show 1 < nestingLimit by decide

instance : Wire.Lawful Range :=
  Range.recordLaw.lawful

/-! ## Diagnostics -/

/-- The range of the diagnostic is in range. -/
def Diagnostic.InRange (diagnostic : Diagnostic) : Prop :=
  diagnostic.range.InRange

/-- The diagnostic that the values of its fields stand for. -/
def Diagnostic.ofFields? : List Json → Option Diagnostic
  | [severity, range, message, source] => do
    return ⟨← Severity.presented? severity, ← Range.presented? range, ← Wire.string? message,
      ← Wire.string? source⟩
  | _ => none

/-- The diagnostic that a JSON value stands for. -/
def Diagnostic.presented? (json : Json) : Option Diagnostic :=
  (json.fields? ["severity", "range", "message", "source"]).bind ofFields?

theorem Severity.presented?_eq (json : Json) :
    presented? json = (Wire.Lawful.form Severity json).bind Wire.ofJson? :=
  (Wire.Lawful.ofJson?_form (α := Severity) json).symm

theorem Range.presented?_eq (json : Json) :
    presented? json = (Wire.Lawful.form Range json).bind Wire.ofJson? :=
  (Wire.Lawful.ofJson?_form (α := Range) json).symm

def Diagnostic.recordLaw : Wire.RecordLaw Diagnostic where
  name := "Diagnostic"
  parts := [Wire.lawfulPart "severity" Severity, Wire.lawfulPart "range" Range,
    Wire.textPart "message", Wire.textPart "source"]
  InRange := InRange
  ofFields? := ofFields?
  members diagnostic :=
    [("severity", Wire.toJson diagnostic.severity), ("range", Wire.toJson diagnostic.range),
      ("message", .string diagnostic.message), ("source", .string diagnostic.source)]
  names_nodup := by decide
  shape_eq := rfl
  toJson_eq _ := rfl
  ofJson?_members diagnostic := by
    change (do return ⟨← Wire.ofJson? (Wire.toJson diagnostic.severity),
      ← Wire.ofJson? (Wire.toJson diagnostic.range), diagnostic.message, diagnostic.source⟩) =
        some diagnostic
    rw [Wire.Lawful.ofJson?_toJson, Wire.Lawful.ofJson?_toJson]
    rfl
  exists_of_members found h := by
    obtain ⟨_, _, hfirst, hothers, rfl⟩ := members_cons_iff.mp h
    obtain ⟨_, _, hsecond, hothers', rfl⟩ := members_cons_iff.mp hothers
    obtain ⟨_, _, hthird, hothers'', rfl⟩ := members_cons_iff.mp hothers'
    obtain ⟨_, _, hfourth, hnone, rfl⟩ := members_cons_iff.mp hothers''
    obtain rfl := members_nil_iff.mp hnone
    obtain ⟨severity, -, rfl⟩ := Wire.Lawful.gives (α := Severity) hfirst
    obtain ⟨range, hrange, rfl⟩ := Wire.Lawful.gives (α := Range) hsecond
    obtain ⟨message, rfl⟩ := gives_text hthird
    obtain ⟨source, rfl⟩ := gives_text hfourth
    exact ⟨⟨severity, range, message, source⟩, hrange, rfl⟩
  canonical diagnostic :=
    .cons ⟨rfl, Wire.Lawful.form_toJson diagnostic.severity⟩
      (.cons ⟨rfl, Wire.Lawful.form_toJson diagnostic.range⟩
        (.cons ⟨rfl, rfl⟩ (.cons ⟨rfl, rfl⟩ .nil)))
  ofJson?_ofItems
    | [severity, range, message, source], _ => by
      simp only [Part.ofItems, Wire.lawfulPart, Wire.textPart, ofFields?, Severity.presented?_eq,
        Range.presented?_eq]
      cases Wire.Lawful.form Severity severity with
      | none => rfl
      | some severity =>
        cases Wire.Lawful.form Range range with
        | none => simp
        | some range =>
          cases Wire.string? message with
          | none => simp
          | some message =>
            cases Wire.string? source with
            | none => simp
            | some source => rfl
  isIntegral diagnostic h := by
    have hseverity := Wire.Lawful.isIntegral_toJson diagnostic.severity trivial
    have hrange := Wire.Lawful.isIntegral_toJson diagnostic.range h
    simp [membersEverywhere, hseverity, hrange, everywhere, Json.isIntegral]
  nesting diagnostic := by
    cases diagnostic.severity
    exact (by decide : 2 < nestingLimit)

instance : Wire.Lawful Diagnostic :=
  Diagnostic.recordLaw.lawful

/-! ## Classifications and targets -/

/-- The classification that the values of its fields stand for. -/
def Classification.ofFields? : List Json → Option Classification
  | [kind, name] => do return ⟨← DefinitionKind.presented? kind, ← Wire.string? name⟩
  | _ => none

/-- The classification that a JSON value stands for. -/
def Classification.presented? (json : Json) : Option Classification :=
  (json.fields? ["kind", "name"]).bind ofFields?

theorem DefinitionKind.presented?_eq (json : Json) :
    presented? json = (Wire.Lawful.form DefinitionKind json).bind Wire.ofJson? :=
  (Wire.Lawful.ofJson?_form (α := DefinitionKind) json).symm

theorem Span.presented?_eq (json : Json) :
    presented? json = (Wire.Lawful.form Span json).bind Wire.ofJson? :=
  (Wire.Lawful.ofJson?_form (α := Span) json).symm

def Classification.recordLaw : Wire.RecordLaw Classification where
  name := "Classification"
  parts := [Wire.lawfulPart "kind" DefinitionKind, Wire.textPart "name"]
  InRange _ := True
  ofFields? := ofFields?
  members classification :=
    [("kind", Wire.toJson classification.kind), ("name", .string classification.name)]
  names_nodup := by decide
  shape_eq := rfl
  toJson_eq _ := rfl
  ofJson?_members classification := by
    change (do return ⟨← Wire.ofJson? (Wire.toJson classification.kind), classification.name⟩) =
      some classification
    rw [Wire.Lawful.ofJson?_toJson]
    rfl
  exists_of_members found h := by
    obtain ⟨_, _, hfirst, hothers, rfl⟩ := members_cons_iff.mp h
    obtain ⟨_, _, hsecond, hnone, rfl⟩ := members_cons_iff.mp hothers
    obtain rfl := members_nil_iff.mp hnone
    obtain ⟨kind, -, rfl⟩ := Wire.Lawful.gives (α := DefinitionKind) hfirst
    obtain ⟨name, rfl⟩ := gives_text hsecond
    exact ⟨⟨kind, name⟩, trivial, rfl⟩
  canonical classification :=
    .cons ⟨rfl, Wire.Lawful.form_toJson classification.kind⟩ (.cons ⟨rfl, rfl⟩ .nil)
  ofJson?_ofItems
    | [kind, name], _ => by
      simp only [Part.ofItems, Wire.lawfulPart, Wire.textPart, ofFields?,
        DefinitionKind.presented?_eq]
      cases Wire.Lawful.form DefinitionKind kind with
      | none => rfl
      | some kind =>
        cases Wire.string? name with
        | none => simp
        | some name => rfl
  isIntegral classification _ := rfl
  nesting classification := show 0 < nestingLimit by decide

instance : Wire.Lawful Classification :=
  Classification.recordLaw.lawful

/-- The span of the target is in range. -/
def Target.InRange (target : Target) : Prop :=
  target.span.InRange

/-- The target that the values of its fields stand for. -/
def Target.ofFields? : List Json → Option Target
  | [kind, name, selector, span] => do
    return ⟨← DefinitionKind.presented? kind, ← Wire.string? name, ← Wire.string? selector,
      ← Span.presented? span⟩
  | _ => none

/-- The target that a JSON value stands for. -/
def Target.presented? (json : Json) : Option Target :=
  (json.fields? ["kind", "name", "selector", "span"]).bind ofFields?

def Target.recordLaw : Wire.RecordLaw Target where
  name := "ResolvedTarget"
  parts := [Wire.lawfulPart "kind" DefinitionKind, Wire.textPart "name", Wire.textPart "selector",
    Wire.lawfulPart "span" Span]
  InRange := InRange
  ofFields? := ofFields?
  members target :=
    [("kind", Wire.toJson target.kind), ("name", .string target.name),
      ("selector", .string target.selector), ("span", Wire.toJson target.span)]
  names_nodup := by decide
  shape_eq := rfl
  toJson_eq _ := rfl
  ofJson?_members target := by
    change (do return ⟨← Wire.ofJson? (Wire.toJson target.kind), target.name, target.selector,
      ← Wire.ofJson? (Wire.toJson target.span)⟩) = some target
    rw [Wire.Lawful.ofJson?_toJson, Wire.Lawful.ofJson?_toJson]
    rfl
  exists_of_members found h := by
    obtain ⟨_, _, hfirst, hothers, rfl⟩ := members_cons_iff.mp h
    obtain ⟨_, _, hsecond, hothers', rfl⟩ := members_cons_iff.mp hothers
    obtain ⟨_, _, hthird, hothers'', rfl⟩ := members_cons_iff.mp hothers'
    obtain ⟨_, _, hfourth, hnone, rfl⟩ := members_cons_iff.mp hothers''
    obtain rfl := members_nil_iff.mp hnone
    obtain ⟨kind, -, rfl⟩ := Wire.Lawful.gives (α := DefinitionKind) hfirst
    obtain ⟨name, rfl⟩ := gives_text hsecond
    obtain ⟨selector, rfl⟩ := gives_text hthird
    obtain ⟨span, hspan, rfl⟩ := Wire.Lawful.gives (α := Span) hfourth
    exact ⟨⟨kind, name, selector, span⟩, hspan, rfl⟩
  canonical target :=
    .cons ⟨rfl, Wire.Lawful.form_toJson target.kind⟩ (.cons ⟨rfl, rfl⟩ (.cons ⟨rfl, rfl⟩
      (.cons ⟨rfl, Wire.Lawful.form_toJson target.span⟩ .nil)))
  ofJson?_ofItems
    | [kind, name, selector, span], _ => by
      simp only [Part.ofItems, Wire.lawfulPart, Wire.textPart, ofFields?,
        DefinitionKind.presented?_eq, Span.presented?_eq]
      cases Wire.Lawful.form DefinitionKind kind with
      | none => rfl
      | some kind =>
        cases Wire.string? name with
        | none => simp
        | some name =>
          cases Wire.string? selector with
          | none => simp
          | some selector =>
            cases Wire.Lawful.form Span span with
            | none => simp
            | some span => rfl
  isIntegral target h := by
    have hkind := Wire.Lawful.isIntegral_toJson target.kind trivial
    have hspan := Wire.Lawful.isIntegral_toJson target.span h
    simp [membersEverywhere, hkind, hspan, everywhere, Json.isIntegral]
  nesting target := show 1 < nestingLimit by decide

instance : Wire.Lawful Target :=
  Target.recordLaw.lawful

/-! ## There and back -/

namespace Wire

/-- **The values that leave the console come back.**  Their counts have to have 64 bits, and those of
a value that was read always do.  Which value a text stands for can be told from the JSON value in
it, and of a record fieldwise. -/
theorem values_round_trip :
    RoundTrips Position Position.InRange Position.presented? ∧
      RoundTrips Span Span.InRange Span.presented? ∧
      RoundTrips Range Range.InRange Range.presented? ∧
      RoundTrips Diagnostic Diagnostic.InRange Diagnostic.presented? ∧
      RoundTrips Classification (fun _ => True) Classification.presented? ∧
      RoundTrips Target Target.InRange Target.presented? ∧
      RoundTrips DefinitionKind (fun _ => True) DefinitionKind.presented? ∧
      RoundTrips OperationType (fun _ => True) OperationType.presented? ∧
      RoundTrips Severity (fun _ => True) Severity.presented? ∧
      Fieldwise ["line", "character"] Position.presented? ∧
      Fieldwise ["start", "end"] Span.presented? ∧
      Fieldwise ["start", "end"] Range.presented? ∧
      Fieldwise ["severity", "range", "message", "source"] Diagnostic.presented? ∧
      Fieldwise ["kind", "name"] Classification.presented? ∧
      Fieldwise ["kind", "name", "selector", "span"] Target.presented? :=
  ⟨Lawful.roundTrips, Lawful.roundTrips, Lawful.roundTrips, Lawful.roundTrips, Lawful.roundTrips,
    Lawful.roundTrips, Lawful.roundTrips, Lawful.roundTrips, Lawful.roundTrips,
    fieldwise_fields? _ Position.ofFields?, fieldwise_fields? _ Span.ofFields?,
    fieldwise_fields? _ Range.ofFields?, fieldwise_fields? _ Diagnostic.ofFields?,
    fieldwise_fields? _ Classification.ofFields?, fieldwise_fields? _ Target.ofFields?⟩

/-- A target with a name that needs escapes, and a text that stands for it: its fields are in another
order, the span is an array, the kind is a key, and one member is no field. -/
theorem values_round_trip_of_reordered_target :
    ∃ target text, target =
        (⟨.fragment, "a\"\n😀", "b\x01", ⟨7, 18446744073709551615⟩⟩ : Target) ∧
      text = "\x7b\"span\":[7,18446744073709551615],\n\"x\":[1e9,\x7b\x7d],\"kind\":" ++
        "\x7b\"fragment\":null\x7d,\"selector\":\"\\u0062\\u0001\"," ++
        "\"name\":\"a\\\"\\n\\ud83d\\uDE00\"\x7d" ∧
      target.InRange ∧ decode Target (encode target) = .ok target ∧
      (∃ json, Json.parse text = .ok json ∧ Target.presented? json = some target) ∧
      decode Target text = .ok target := by
  generalize htext : "\x7b\"span\":[7,18446744073709551615],\n\"x\":[1e9,\x7b\x7d],\"kind\":" ++
    "\x7b\"fragment\":null\x7d,\"selector\":\"\\u0062\\u0001\"," ++
    "\"name\":\"a\\\"\\n\\ud83d\\uDE00\"\x7d" = text
  generalize htarget :
    (⟨.fragment, "a\"\n😀", "b\x01", ⟨7, 18446744073709551615⟩⟩ : Target) = target
  have hrange : target.InRange := by
    rw [← htarget]
    exact ⟨by decide, by decide⟩
  have hpresented : (Json.parse text).toOption.any (fun json =>
      Target.presented? json == some target) = true := by
    rw [← htext, ← htarget]
    decide +kernel
  have hlaw := values_round_trip.2.2.2.2.2.1
  cases hparse : Json.parse text with
  | error => simp [hparse, Except.toOption] at hpresented
  | ok json =>
    simp only [hparse, Except.toOption, Option.any_some, beq_iff_eq] at hpresented
    exact ⟨target, text, rfl, rfl, hrange, hlaw.decode_encode target hrange,
      ⟨json, hparse, hpresented⟩, (hlaw.decode_iff text json hparse target).mpr hpresented⟩

end Wire
end QueryLocator
