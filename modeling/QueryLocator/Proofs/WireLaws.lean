import QueryLocator.Proofs.JsonRecords
import QueryLocator.Proofs.JsonData

/-! # The law of a wire form

What makes the values of a type come back from what is written for them: its shape follows the JSON
value in a text and gives canonical forms only, and a canonical form stands for one value
(`Wire.Lawful`).  From the law of a type the way there and back follows (`Wire.Lawful.roundTrips`).
Records have their law from their fields (`Wire.RecordLaw`), and choices from their words
(`Wire.ChoiceLaw`).
-/
namespace QueryLocator

open Json JsonShape

/-! ## Fields of a value -/

namespace Json

/-- The values of some fields: from an object the only members with their names, from an array its
items. -/
def fields? (names : List String) : Json → Option (List Json)
  | object members => names.mapM fun name => onlyMember? name members
  | array items => if items.length = names.length then some items else none
  | _ => none

/-- Of an object the members that are fields decide what it stands for, wherever they stand. -/
structure Fieldwise {α : Type} (names : List String) (presented? : Json → Option α) : Prop where
  perm : ∀ {members members'}, members.Perm members' →
    presented? (object members) = presented? (object members')
  unknown : ∀ {key} value members, key ∉ names →
    presented? (object ((key, value) :: members)) = presented? (object members)

/-- The order of the members does not matter. -/
theorem fields?_of_perm (names : List String) {members members' : List (String × Json)}
    (h : members.Perm members') : fields? names (object members) = fields? names (object members') := by
  simp only [fields?, onlyMember?_of_perm h]

/-- Members that are no fields do not matter. -/
theorem fields?_of_unknown {names : List String} {key : String} (h : key ∉ names) (value : Json)
    (members : List (String × Json)) :
    fields? names (object ((key, value) :: members)) = fields? names (object members) := by
  change names.mapM _ = names.mapM _
  induction names with
  | nil => rfl
  | cons name names ih =>
    obtain ⟨hname, hnames⟩ := not_or.mp (List.mem_cons.not.mp h)
    rw [List.mapM_cons, List.mapM_cons, onlyMember?_cons_of_ne hname value members, ih hnames]

/-- What is told from the values of some fields is told fieldwise. -/
theorem fieldwise_fields? {α : Type} (names : List String) (ofFields? : List Json → Option α) :
    Fieldwise names fun json => (json.fields? names).bind ofFields? where
  perm h := by rw [fields?_of_perm names h]
  unknown value members h := by rw [fields?_of_unknown h value members]

end Json

theorem JsonShape.Part.ofMembers_eq (parts : List Part) (members : List (String × Json)) :
    ofMembers parts members =
      ((parts.map Part.name).mapM fun name => onlyMember? name members).bind (ofItems parts) := by
  induction parts with
  | nil => rfl
  | cons part parts ih =>
    rw [ofMembers, ih, List.map_cons, List.mapM_cons]
    simp only [Option.bind_eq_bind, Option.pure_def]
    cases onlyMember? part.name members with
    | none => rfl
    | some value =>
      cases (parts.map Part.name).mapM fun name => onlyMember? name members with
      | none => cases hform : part.form value <;> simp [hform]
      | some values => rfl

theorem JsonShape.Part.ofItems_of_length {parts : List Part} {items : List Json}
    (h : items.length ≠ parts.length) : ofItems parts items = none := by
  induction parts generalizing items with
  | nil =>
    match items, h with
    | _ :: _, _ => rfl
  | cons part parts ih =>
    match items, h with
    | [], _ => rfl
    | item :: items, h =>
      rw [ofItems, ih (by simpa using h)]
      cases part.form item <;> rfl

/-- The form of a record, from the values of its fields. -/
theorem JsonShape.recordForm_eq (parts : List Part) (json : Json) :
    recordForm parts json =
      ((json.fields? (parts.map Part.name)).bind (Part.ofItems parts)).map .object := by
  match json with
  | .object members => rw [recordForm, fields?, Part.ofMembers_eq]
  | .array items =>
    rw [recordForm, fields?, List.length_map]
    split
    next => rfl
    next hlength => rw [Part.ofItems_of_length hlength, Option.bind_none]
  | .null | .boolean _ | .number _ | .string _ => rfl

/-! ## The law of a type -/

/-- What makes the values of a type come back: its shape follows the values in a text and gives
canonical forms only, and canonical forms stand for one value each. -/
class Wire.Lawful (α : Type) [Wire α] where
  /-- The values whose counts have 64 bits. -/
  InRange : α → Prop
  /-- The canonical form of a JSON value. -/
  form : Form
  /-- The value that a JSON value stands for. -/
  presented? : Json → Option α
  follows : Follows (Wire.shape α) form
  gives : ∀ {json}, Gives (Wire.shape α) json → ∃ value, InRange value ∧ json = Wire.toJson value
  form_toJson : ∀ value : α, form (Wire.toJson value) = some (Wire.toJson value)
  ofJson?_toJson : ∀ value : α, Wire.ofJson? (Wire.toJson value) = some value
  ofJson?_form : ∀ json, (form json).bind Wire.ofJson? = presented? json
  isIntegral_toJson : ∀ value, InRange value → (Wire.toJson value).everywhere isIntegral = true
  nesting_toJson : ∀ value : α, (Wire.toJson value).nesting ≤ nestingLimit

/-- The values of a type come back from what is written for them, and what was read comes back from
what is written for it.  What a text stands for depends on the JSON value in it only. -/
structure Wire.RoundTrips (α : Type) [Wire α] (InRange : α → Prop) (presented? : Json → Option α) :
    Prop where
  decode_encode : ∀ value, InRange value → decode α (encode value) = .ok value
  encode_decode : ∀ text value, decode α text = .ok value →
    InRange value ∧ decode α (encode value) = .ok value
  decode_iff : ∀ text json, Json.parse text = .ok json →
    ∀ value, decode α text = .ok value ↔ presented? json = some value

namespace Wire

section Laws
variable {α : Type} [Wire α]

theorem decode_eq_ok_iff {text : String} {value : α} : decode α text = .ok value ↔
    ∃ json, readText (shape α) text.toList = .ok json ∧ ofJson? json = some value := by
  unfold decode
  cases readText (shape α) text.toList with
  | error => simp
  | ok json => cases hvalue : (ofJson? json : Option α) <;> simp [hvalue]

theorem readText_eq_ok_iff {shape : JsonShape} {text : List Char} {json : Json} :
    readText shape text = .ok json ↔
      ∃ rest, shape nestingLimit text = .ok (.ok json, rest) ∧ readEnd rest = .ok () := by
  constructor
  · intro h
    obtain ⟨⟨found, rest⟩, hread, h⟩ := bind_eq_ok_iff.mp h
    cases found with
    | error => cases h
    | ok found =>
      obtain ⟨⟨⟩, hend, h⟩ := bind_eq_ok_iff.mp h
      obtain rfl := Except.ok.inj h
      exact ⟨rest, hread, hend⟩
  · rintro ⟨rest, hread, hend⟩
    exact bind_eq_ok_iff.mpr ⟨_, hread, bind_eq_ok_iff.mpr ⟨_, hend, rfl⟩⟩

variable [Lawful α]

/-- Which value a text stands for can be told from the JSON value in it. -/
theorem decode_iff_presented {text : String} {json : Json} (h : Json.parse text = .ok json)
    (value : α) : decode α text = .ok value ↔ Lawful.presented? json = some value := by
  obtain ⟨rest, hread, hend⟩ := parse_eq_ok_iff.mp h
  have hfollows : fitted? (shape α nestingLimit text.toList) = _ := Lawful.follows hread
  rw [← Lawful.ofJson?_form, decode_eq_ok_iff]
  constructor
  · rintro ⟨canonical, htext, hvalue⟩
    obtain ⟨rest', hshape, -⟩ := readText_eq_ok_iff.mp htext
    rw [hshape] at hfollows
    obtain ⟨_, hform, hcanonical⟩ := Option.map_eq_some_iff.mp hfollows.symm
    obtain ⟨rfl, -⟩ := Prod.mk.inj hcanonical
    rw [hform]
    exact hvalue
  · intro h
    obtain ⟨canonical, hform, hvalue⟩ := Option.bind_eq_some_iff.mp h
    rw [hform] at hfollows
    exact ⟨canonical, readText_eq_ok_iff.mpr ⟨rest, eq_ok_of_fitted? hfollows, hend⟩, hvalue⟩

theorem parse_encode {value : α} (h : Lawful.InRange value) :
    Json.parse (encode value) = .ok (toJson value) := by
  have hread := readValue_compact (toJson value) (Lawful.isIntegral_toJson value h)
    (Lawful.nesting_toJson value) endsNumber_nil
  rw [List.append_nil] at hread
  refine parse_eq_ok_iff.mpr ⟨[], ?_, rfl⟩
  rw [encode, render, String.toList_ofList]
  exact hread

theorem presented?_toJson (value : α) : Lawful.presented? (toJson value) = some value := by
  rw [← Lawful.ofJson?_form, Lawful.form_toJson, Option.bind_some, Lawful.ofJson?_toJson]

/-- **The law of a type makes its values come back.** -/
theorem Lawful.roundTrips : RoundTrips α Lawful.InRange Lawful.presented? := by
  have hencode {value : α} (h : Lawful.InRange value) : decode α (encode value) = .ok value :=
    (decode_iff_presented (parse_encode h) value).mpr (presented?_toJson value)
  refine ⟨fun value h => hencode h, fun text value h => ?_, fun text json h =>
    decode_iff_presented h⟩
  obtain ⟨json, htext, hvalue⟩ := decode_eq_ok_iff.mp h
  obtain ⟨rest, hshape, -⟩ := readText_eq_ok_iff.mp htext
  obtain ⟨found, hfound, rfl⟩ := Lawful.gives (α := α) ⟨_, _, _, hshape⟩
  rw [Lawful.ofJson?_toJson] at hvalue
  obtain rfl := Option.some.inj hvalue
  exact ⟨hfound, hencode hfound⟩

end Laws

end Wire

/-! ## The law of a record -/

section Members
variable {part : Part} {parts : List Part} {members : List (String × Json)}

theorem JsonShape.members_nil_iff : Members [] members ↔ members = [] := by
  simp [Members]

theorem JsonShape.members_cons_iff : Members (part :: parts) members ↔
    ∃ value others, Gives part.shape value ∧ Members parts others ∧
      members = (part.name, value) :: others := by
  unfold Members
  rw [List.forall₂_cons_left_iff]
  constructor
  · rintro ⟨⟨key, value⟩, others, ⟨rfl, hvalue⟩, hothers, rfl⟩
    exact ⟨value, others, hvalue, hothers, rfl⟩
  · rintro ⟨value, others, hvalue, hothers, rfl⟩
    exact ⟨(part.name, value), others, ⟨rfl, hvalue⟩, hothers, rfl⟩

end Members

theorem length_of_mapM {α β : Type} {f : α → Option β} {list : List α} {values : List β}
    (h : list.mapM f = some values) : values.length = list.length := by
  induction list generalizing values with
  | nil =>
    obtain rfl := Option.some.inj h
    rfl
  | cons item items ih =>
    rw [List.mapM_cons] at h
    obtain ⟨value, -, h⟩ := Option.bind_eq_some_iff.mp h
    obtain ⟨others, hothers, h⟩ := Option.bind_eq_some_iff.mp h
    obtain rfl := Option.some.inj h
    rw [List.length_cons, List.length_cons, ih hothers]

theorem Json.length_of_fields? {names : List String} {json : Json} {values : List Json}
    (h : json.fields? names = some values) : values.length = names.length := by
  unfold fields? at h
  split at h
  next => exact length_of_mapM h
  next =>
    split at h
    next hlength =>
      obtain rfl := Option.some.inj h
      exact hlength
    next => cases h
  next => cases h

namespace Wire

/-- What makes the values of a record come back: its fields have names of their own, and what they hold
stands for one value each. -/
structure RecordLaw (α : Type) [Wire α] where
  name : String
  parts : List Part
  /-- The values whose counts have 64 bits. -/
  InRange : α → Prop
  /-- The value that the values of the fields stand for. -/
  ofFields? : List Json → Option α
  /-- The members of the canonical form. -/
  members : α → List (String × Json)
  names_nodup : (parts.map Part.name).Nodup
  shape_eq : shape α = record name (parts.map Part.field)
  toJson_eq : ∀ value, toJson value = object (members value)
  ofJson?_members : ∀ value : α, ofJson? (object (members value)) = some value
  exists_of_members : ∀ found, Members parts found → ∃ value, InRange value ∧ found = members value
  canonical : ∀ value, Canonical parts (members value)
  ofJson?_ofItems : ∀ items, items.length = parts.length →
    ((Part.ofItems parts items).map object).bind ofJson? = ofFields? items
  isIntegral : ∀ value, InRange value → membersEverywhere Json.isIntegral (members value) = true
  nesting : ∀ value, membersNesting (members value) < nestingLimit

/-- The law of a record is the law of a type. -/
@[reducible] def RecordLaw.lawful {α : Type} [Wire α] (law : RecordLaw α) : Lawful α where
  InRange := law.InRange
  form := recordForm law.parts
  presented? json := (json.fields? (law.parts.map Part.name)).bind law.ofFields?
  follows := by
    rw [law.shape_eq]
    exact follows_record law.name law.names_nodup
  gives h := by
    rw [law.shape_eq] at h
    obtain ⟨found, hfound, rfl⟩ := gives_record h
    obtain ⟨value, hvalue, rfl⟩ := law.exists_of_members found hfound
    exact ⟨value, hvalue, (law.toJson_eq value).symm⟩
  form_toJson value := by
    rw [law.toJson_eq, recordForm, (law.canonical value).ofMembers_eq law.names_nodup]
    rfl
  ofJson?_toJson value := by rw [law.toJson_eq, law.ofJson?_members]
  ofJson?_form json := by
    rw [recordForm_eq]
    cases hfields : json.fields? (law.parts.map Part.name) with
    | none => rfl
    | some values =>
      have hlength := length_of_fields? hfields
      rw [List.length_map] at hlength
      exact law.ofJson?_ofItems values hlength
  isIntegral_toJson value h := by
    rw [law.toJson_eq, everywhere, law.isIntegral value h]
    rfl
  nesting_toJson value := by
    rw [law.toJson_eq]
    exact law.nesting value

/-- What makes the words of a choice come back. -/
structure ChoiceLaw (α : Type) [Wire α] where
  words : List String
  word : α → String
  /-- The value that a word stands for. -/
  ofWord? : String → Option α
  shape_eq : shape α = choice words
  toJson_eq : ∀ value, toJson value = string (word value)
  ofJson?_string : ∀ found, ofJson? (string found) = ofWord? found
  ofWord?_word : ∀ value, ofWord? (word value) = some value
  mem_words : ∀ value, word value ∈ words
  exists_of_mem : ∀ found ∈ words, ∃ value, word value = found
  word_of_ofWord? : ∀ found value, ofWord? found = some value → word value = found

/-- The law of a choice is the law of a type. -/
@[reducible] def ChoiceLaw.lawful {α : Type} [Wire α] (law : ChoiceLaw α) : Lawful α where
  InRange _ := True
  form json := ((word? json).filter law.words.contains).map .string
  presented? json := (word? json).bind law.ofWord?
  follows := by
    rw [law.shape_eq]
    exact follows_choice law.words
  gives h := by
    rw [law.shape_eq] at h
    obtain ⟨found, hfound, rfl⟩ := gives_choice h
    obtain ⟨value, rfl⟩ := law.exists_of_mem found hfound
    exact ⟨value, trivial, (law.toJson_eq value).symm⟩
  form_toJson value := by
    have hmem : law.words.contains (law.word value) = true :=
      List.contains_iff_mem.mpr (law.mem_words value)
    rw [law.toJson_eq, word?, Option.filter_some, if_pos hmem]
    rfl
  ofJson?_toJson value := by rw [law.toJson_eq, law.ofJson?_string, law.ofWord?_word]
  ofJson?_form json := by
    cases hword : word? json with
    | none => rfl
    | some found =>
      rw [Option.bind_some, Option.filter_some]
      split
      next => exact law.ofJson?_string found
      next hmem =>
        -- a word that stands for a value is one of the words
        cases hvalue : law.ofWord? found with
        | none => rfl
        | some value =>
          refine absurd (List.contains_iff_mem.mpr ?_) hmem
          exact law.word_of_ofWord? found value hvalue ▸ law.mem_words value
  isIntegral_toJson value _ := by
    rw [law.toJson_eq]
    rfl
  nesting_toJson value := by
    rw [law.toJson_eq]
    exact Nat.zero_le _

end Wire

/-! ## Counts, texts and words -/

namespace Wire

@[simp] theorem count?_ofNat (n : Nat) : count? (.ofNat n) = some n := by
  simp [count?, ofNat]

theorem isIntegral_ofNat {n : Nat} (h : n ≤ maxUnsigned) :
    (Json.ofNat n).everywhere Json.isIntegral = true := by
  have hhigh : (n : Int) < Int.pow 2 64 := by
    have : Int.pow 2 64 = (maxUnsigned : Int) + 1 := by decide
    omega
  have hlow : -Int.pow 2 63 ≤ (n : Int) := by
    have : 0 ≤ Int.pow 2 63 := by decide
    omega
  simp only [ofNat, everywhere, Json.isIntegral, Bool.and_eq_true, decide_eq_true_eq]
  exact ⟨hlow, hhigh⟩

/-- A part that holds a count. -/
def countPart (name : String) : Part :=
  ⟨name, count, fun json => (count? json).map ofNat, follows_count⟩

theorem countPart_ofNat (name : String) (n : Nat) :
    (countPart name).form (.ofNat n) = some (.ofNat n) := by
  simp [countPart]

/-- A part that holds a text. -/
def textPart (name : String) : Part :=
  ⟨name, JsonShape.text, fun json => (string? json).map .string, follows_text⟩

/-- A part that holds a value of a type with a law. -/
def lawfulPart (name : String) (α : Type) [Wire α] [Lawful α] : Part :=
  ⟨name, shape α, Lawful.form α, Lawful.follows⟩

end Wire

end QueryLocator
