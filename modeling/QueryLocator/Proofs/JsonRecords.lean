import Mathlib.Data.List.Forall2
import QueryLocator.Proofs.JsonForms

/-! # What fits a record

A record is read from an object or from an array of its fields.  In an object each field has to be a
member once, wherever it stands, and what is no field is passed over; an array has to hold the values
of all fields in their order.  The form that is given does not tell the two apart (`follows_record`).
-/
namespace QueryLocator.JsonShape

open Json JsonFailure

/-- A field that has to be there, with the form of its values. -/
structure Part where
  name : String
  shape : JsonShape
  form : Form
  follows : Follows shape form

namespace Part

/-- The field, without values that stand in for it. -/
def field (part : Part) : Field :=
  ⟨part.name, part.shape, none, none⟩

/-- The values of all parts, each from the only member with its name. -/
def ofMembers : List Part → List (String × Json) → Option (List (String × Json))
  | [], _ => some []
  | part :: parts, members =>
    ((onlyMember? part.name members).bind part.form).bind fun value =>
      (ofMembers parts members).map fun others => (part.name, value) :: others

/-- The values of all parts, from as many items. -/
def ofItems : List Part → List Json → Option (List (String × Json))
  | [], [] => some []
  | part :: parts, item :: items =>
    (part.form item).bind fun value =>
      (ofItems parts items).map fun others => (part.name, value) :: others
  | _, _ => none

end Part

/-- The form of a record. -/
def recordForm (parts : List Part) : Form
  | .object members => (Part.ofMembers parts members).map .object
  | .array items => (Part.ofItems parts items).map .object
  | _ => none

/-! ## Objects -/

/-- Puts the members of an object into the places of the parts.  A place must not be taken twice. -/
def gather? (parts : List Part) (found : List (Option Json)) :
    List (String × Json) → Option (List (Option Json))
  | [] => some found
  | (key, value) :: members =>
    match parts.findIdx? (·.name = key) with
    | none => gather? parts found members
    | some place =>
      if (found[place]?.join).isSome then none
      else (parts[place]?.bind fun part => part.form value).bind fun value =>
        gather? parts (found.set place (some value)) members

section Objects
variable {parts : List Part} {depth bound : Nat} {first : Bool} {found : List (Option Json)}
  {text rest : List Char} {members : List (String × Json)}

theorem readFields_of_nextKey {fields : List Field} {keyText colon : List Char} {key : String}
    (hnext : nextKey first text = .ok (true, keyText)) (hkey : readString keyText = .ok (key, colon)) :
    readFields fields depth (bound + 1) first found text =
      match fields.findIdx? (·.name = key) with
      | none => (readColon colon).bind fun read => (skipValue read.2).bind fun rest =>
          readFields fields depth bound false found rest
      | some place =>
        if (found[place]?.join).isSome then
          here (.shape (.duplicateField key)) (pastObjectEnd colon)
        else (readColon colon).bind fun read =>
          match fields[place]? with
          | none => readFields fields depth bound false found read.2
          | some field => (field.shape depth read.2).bind fun
            | (.ok value, rest) =>
              readFields fields depth bound false (found.set place (some value)) rest
            | (.error mismatch, rest) => here (.shape mismatch) (pastObjectEnd rest) := by
  rw [readFields, hnext]
  change (readString keyText).bind _ = _
  rw [hkey]
  rfl

theorem exists_of_findIdx? {test : Part → Bool} {place : Nat}
    (h : parts.findIdx? test = some place) : ∃ part, parts[place]? = some part := by
  obtain ⟨hlt, -⟩ := List.findIdx?_eq_some_iff_getElem.mp h
  exact ⟨parts[place], List.getElem?_eq_getElem hlt⟩

theorem eq_ok_of_fitted? {read : Except JsonFailure (Except Mismatch Json × List Char)}
    {canonical : Json} (h : fitted? read = some (canonical, rest)) :
    read = .ok (.ok canonical, rest) := by
  unfold fitted? at h
  split at h
  next =>
    obtain ⟨rfl, rfl⟩ := Prod.mk.inj (Option.some.inj h)
    rfl
  next => cases h

/-- What does not fit leads nowhere, if a mismatch does not. -/
theorem toOption_bind_of_fitted?_none {α : Type}
    {read : Except JsonFailure (Except Mismatch Json × List Char)}
    {next : Except Mismatch Json × List Char → Except JsonFailure α} (h : fitted? read = none)
    (hnext : ∀ mismatch rest, (next (.error mismatch, rest)).toOption = none) :
    (read.bind next).toOption = none := by
  match read, h with
  | .error _, _ => rfl
  | .ok (.error mismatch, rest), _ => exact hnext mismatch rest

/-- **The members of an object are gathered** as they are read. -/
theorem toOption_readFields (h : readMembers (readValue depth) bound first text = .ok (members, rest)) :
    (readFields (parts.map Part.field) depth bound first found text).toOption =
      (gather? parts found members).map fun found => (found, rest) := by
  induction bound generalizing first found text members with
  | zero => cases h
  | succ bound ih =>
    obtain ⟨rfl, hnext⟩ | ⟨keyText, key, colon, part, value, behind, more, hnext, hkey, hcolon, hvalue,
      hmore, rfl⟩ := readMembers_cases h
    · rw [readFields, hnext]
      rfl
    · rw [readFields_of_nextKey hnext hkey, gather?, hcolon, List.findIdx?_map]
      change Except.toOption (match parts.findIdx? (·.name = key) with
        | none => _
        | some place => _) = _
      cases hplace : parts.findIdx? (·.name = key) with
      | none =>
        change Except.toOption ((skipValue part).bind _) = _
        rw [skipValue_of_readValue hvalue]
        exact ih hmore
      | some place =>
        dsimp only
        by_cases htaken : (found[place]?.join).isSome = true
        · rw [if_pos htaken, if_pos htaken]
          rfl
        · obtain ⟨chosen, hchosen⟩ := exists_of_findIdx? hplace
          rw [if_neg htaken, if_neg htaken, List.getElem?_map, hchosen]
          have hfollows := chosen.follows hvalue
          change Except.toOption ((chosen.shape depth part).bind _) = _
          dsimp only [Option.bind_some]
          cases hform : chosen.form value with
          | none =>
            rw [hform] at hfollows
            exact toOption_bind_of_fitted?_none hfollows fun mismatch rest => rfl
          | some canonical =>
            rw [hform] at hfollows
            rw [eq_ok_of_fitted? hfollows]
            exact ih hmore

/-- The values of all members with a name. -/
def valuesOf (name : String) (members : List (String × Json)) : List Json :=
  (members.filter (·.1 = name)).map Prod.snd

theorem valuesOf_cons_self (name : String) (value : Json) :
    valuesOf name ((name, value) :: members) = value :: valuesOf name members := by
  simp [valuesOf]

theorem valuesOf_cons_of_ne {name key : String} (h : key ≠ name) (value : Json) :
    valuesOf name ((key, value) :: members) = valuesOf name members := by
  simp [valuesOf, h]

/-- What is put into one place. -/
def place? (form : Form) : Option Json → List Json → Option (Option Json)
  | found, [] => some found
  | none, value :: values => (form value).bind fun value => place? form (some value) values
  | some _, _ :: _ => none

/-- The first place is filled from the members with its name, and the others from the others. -/
theorem gather?_cons (part : Part) (parts : List Part) (taken : Option Json)
    (found : List (Option Json)) (members : List (String × Json)) :
    gather? (part :: parts) (taken :: found) members =
      (place? part.form taken (valuesOf part.name members)).bind fun value =>
        (gather? parts found (members.filter (·.1 ≠ part.name))).map fun others =>
          value :: others := by
  induction members generalizing taken found with
  | nil => rfl
  | cons member members ih =>
    obtain ⟨key, value⟩ := member
    rw [gather?, List.findIdx?_cons]
    by_cases hkey : part.name = key
    · subst hkey
      rw [if_pos (by simp), List.filter_cons_of_neg (by simp)]
      cases taken with
      | some taken => simp [valuesOf, place?]
      | none =>
        simp only [List.getElem?_cons_zero, Option.bind_some, List.set_cons_zero, ih,
          valuesOf_cons_self, place?, Option.bind_assoc]
        exact if_neg (by simp)
    · rw [if_neg (by simpa using hkey), List.filter_cons_of_pos (by simpa using Ne.symm hkey),
        valuesOf_cons_of_ne (Ne.symm hkey), gather?]
      cases hplace : parts.findIdx? (·.name = key) with
      | none => exact ih taken found
      | some place =>
        change (if (found[place]?.join).isSome = true then none else
          (parts[place]?.bind fun part => part.form value).bind fun value =>
            gather? (part :: parts) (taken :: found.set place (some value)) members) = _
        dsimp only
        by_cases htaken : (found[place]?.join).isSome = true
        · rw [if_pos htaken, if_pos htaken]
          simp
        · rw [if_neg htaken, if_neg htaken]
          simp only [ih]
          cases (parts[place]?.bind fun part => part.form value) <;> simp

theorem complete_cons (part : Part) (value : Option Json) (others : List (Option Json)) :
    (complete ((part :: parts).map Part.field) (value :: others)).toOption =
      value.bind fun value => (complete (parts.map Part.field) others).toOption.map fun others =>
        (part.name, value) :: others := by
  cases value with
  | none => rfl
  | some value =>
    change Except.toOption ((complete (parts.map Part.field) others).map _) = _
    cases complete (parts.map Part.field) others <;> rfl

theorem onlyMember?_filter {name other : String} (h : name ≠ other) :
    onlyMember? name (members.filter (·.1 ≠ other)) = onlyMember? name members := by
  have hfilter : (members.filter (·.1 ≠ other)).filter (·.1 = name) =
      members.filter (·.1 = name) := by
    rw [List.filter_filter]
    refine List.filter_congr fun member _ => ?_
    by_cases hmember : member.1 = name
    · simp [hmember, h]
    · simp [hmember]
  rw [onlyMember?, onlyMember?, hfilter]

/-- Members with another name are of no account. -/
theorem Part.ofMembers_filter {other : String} (h : ∀ part ∈ parts, part.name ≠ other) :
    ofMembers parts (members.filter (·.1 ≠ other)) = ofMembers parts members := by
  induction parts with
  | nil => rfl
  | cons part parts ih =>
    rw [ofMembers, ofMembers, onlyMember?_filter (h part (List.mem_cons_self ..)),
      ih fun other hother => h other (List.mem_cons_of_mem _ hother)]

/-- What is left in a place that was free: the form of the only member with the name. -/
theorem place?_none_bind {α : Type} (form : Form) (name : String) (members : List (String × Json))
    (next : Json → Option α) :
    ((place? form none (valuesOf name members)).bind fun value => value.bind next) =
      ((onlyMember? name members).bind form).bind next := by
  unfold valuesOf onlyMember?
  generalize members.filter (·.1 = name) = named
  match named with
  | [] => rfl
  | [member] => cases hform : form member.2 <;> simp [place?, hform]
  | member :: second :: others => cases hform : form member.2 <;> simp [place?, hform]

theorem gather?_nil (found : List (Option Json)) (members : List (String × Json)) :
    gather? [] found members = some found := by
  induction members with
  | nil => rfl
  | cons member members ih => exact ih

theorem ne_of_name_not_mem {part : Part} (h : part.name ∉ parts.map Part.name) :
    ∀ other ∈ parts, other.name ≠ part.name := by
  rintro other hother heq
  exact h (heq ▸ List.mem_map_of_mem hother)

/-- **Gathering takes the only member with the name of each part.** -/
theorem gather?_complete (hnames : (parts.map Part.name).Nodup) (members : List (String × Json)) :
    ((gather? parts (parts.map fun _ => none) members).bind fun found =>
      (complete (parts.map Part.field) found).toOption) = Part.ofMembers parts members := by
  induction parts generalizing members with
  | nil =>
    rw [gather?_nil]
    rfl
  | cons part parts ih =>
    obtain ⟨hpart, hnames⟩ := List.nodup_cons.mp hnames
    have hothers := ne_of_name_not_mem hpart
    rw [List.map_cons, gather?_cons, Part.ofMembers, ← place?_none_bind,
      ← Part.ofMembers_filter hothers, ← ih hnames]
    simp only [Option.bind_assoc, Option.bind_map, Function.comp_def, complete_cons]
    cases gather? parts (parts.map fun _ => none) (members.filter (·.1 ≠ part.name)) with
    | none => simp
    | some others => rfl

end Objects

/-! ## Canonical forms -/

section Canonical
variable {parts : List Part} {members : List (String × Json)}

/-- A member with another name does not matter. -/
theorem Part.ofMembers_cons {key : String} (h : ∀ part ∈ parts, part.name ≠ key) (value : Json)
    (members : List (String × Json)) :
    ofMembers parts ((key, value) :: members) = ofMembers parts members := by
  have hwith := @ofMembers_filter parts ((key, value) :: members) key h
  rw [List.filter_cons_of_neg (by simp), ofMembers_filter h] at hwith
  exact hwith.symm

theorem onlyMember?_cons_self {name : String} (h : name ∉ members.map Prod.fst) (value : Json) :
    onlyMember? name ((name, value) :: members) = some value := by
  have hnone : members.filter (·.1 = name) = [] := by
    refine List.filter_eq_nil_iff.mpr fun member hmember heq => h ?_
    exact List.mem_map.mpr ⟨member, hmember, by simpa using heq⟩
  rw [onlyMember?, List.filter_cons_of_pos (by simp), hnone]

/-- The members of a record in its canonical form. -/
def Canonical (parts : List Part) (members : List (String × Json)) : Prop :=
  List.Forall₂ (fun part member => member.1 = part.name ∧ part.form member.2 = some member.2) parts
    members

theorem Canonical.names (h : Canonical parts members) :
    members.map Prod.fst = parts.map Part.name := by
  induction h with
  | nil => rfl
  | cons hpart _ ih => rw [List.map_cons, List.map_cons, hpart.1, ih]

theorem Canonical.ofMembers_eq (h : Canonical parts members)
    (hnames : (parts.map Part.name).Nodup) : Part.ofMembers parts members = some members := by
  induction h with
  | nil => rfl
  | @cons part member parts members hpart hparts ih =>
    obtain ⟨hname, hnames⟩ := List.nodup_cons.mp hnames
    obtain ⟨key, value⟩ := member
    obtain ⟨rfl, hform⟩ := hpart
    dsimp only at hform
    have honly := onlyMember?_cons_self (Canonical.names hparts ▸ hname) value
    rw [Part.ofMembers, honly, Option.bind_some, hform,
      Part.ofMembers_cons (ne_of_name_not_mem hname), ih hnames]
    rfl

end Canonical

/-! ## Arrays -/

section Arrays
variable {parts : List Part} {depth bound : Nat} {first : Bool} {text rest : List Char}
  {items : List Json}

theorem skipSpace_of_readArrayEnd (h : readArrayEnd text = .ok rest) :
    skipSpace text = ']' :: rest := by
  unfold readArrayEnd at h
  split at h
  next => cases h
  next hspace =>
    obtain rfl := Except.ok.inj h
    exact hspace
  next => split at h <;> cases h
  next => cases h

/-- The end of a record is where the items end. -/
theorem toOption_readArrayEnd (h : readItems (readValue depth) bound first text = .ok (items, rest)) :
    (readArrayEnd text).toOption = if items.isEmpty then some rest else none := by
  cases bound with
  | zero => cases h
  | succ bound =>
    obtain ⟨rfl, hnext⟩ | ⟨part, item, behind, more, hnext, -, -, rfl⟩ := readItems_cases h
    · rw [readArrayEnd, skipSpace_of_nextItem hnext]
      rfl
    · cases hend : readArrayEnd text with
      | error => rfl
      | ok last =>
        have hspace := skipSpace_of_readArrayEnd hend
        rcases nextItem_cases hnext with ⟨-, hspace', c, _, rfl, hclosing⟩ | ⟨-, _, hspace', -⟩
        · rw [hspace] at hspace'
          exact absurd (List.cons.inj hspace').1.symm hclosing
        · rw [hspace] at hspace'
          cases hspace'

/-- The end of an array behind the places of a record. -/
def pastPlaces (ended : Bool) (text : List Char) : Except JsonFailure (List Char) :=
  if ended then .ok text else readArrayEnd text

theorem readPlaces_of_nextItem {name : String} {total : Nat} {fields : List Field} {field : Field}
    {part : List Char} (hnext : nextItem first text = .ok (true, part)) :
    readPlaces name total depth (field :: fields) first false text =
      (field.shape depth part).bind fun
        | (.ok value, rest) => (readPlaces name total depth fields false false rest).bind fun read =>
            .ok ((field.name, value) :: read.1, read.2.1, read.2.2)
        | (.error mismatch, rest) => here (.shape mismatch) (pastArrayEnd rest) := by
  rw [readPlaces]
  dsimp only
  rw [if_neg Bool.false_ne_true, hnext]
  rfl

/-- Reads the fields of a record from an array up to the end of the array. -/
def readRow (name : String) (total depth : Nat) (fields : List Field) (first : Bool)
    (text : List Char) : Except JsonFailure (List (String × Json) × List Char) :=
  (readPlaces name total depth fields first false text).bind fun read =>
    (pastPlaces read.2.1 read.2.2).map fun rest => (read.1, rest)

section Rows
variable {name : String} {total : Nat} {fields : List Field} {part : Part}

theorem readRow_nil :
    readRow name total depth [] first text = (readArrayEnd text).map fun rest => ([], rest) := rfl

/-- Behind the end of the array a field is missing. -/
theorem toOption_readRow_end (hnext : nextItem first text = .ok (false, rest)) :
    (readRow name total depth (part.field :: fields) first text).toOption = none := by
  rw [readRow, readPlaces]
  dsimp only
  rw [if_neg Bool.false_ne_true, hnext]
  rfl

theorem readRow_of_nextItem {field : Field} {place : List Char}
    (hnext : nextItem first text = .ok (true, place)) :
    readRow name total depth (field :: fields) first text =
      (field.shape depth place).bind fun
        | (.ok value, rest) => (readRow name total depth fields false rest).map fun read =>
            ((field.name, value) :: read.1, read.2)
        | (.error mismatch, rest) => here (.shape mismatch) (pastArrayEnd rest) := by
  rw [readRow, readPlaces_of_nextItem hnext]
  match field.shape depth place with
  | .error _ | .ok (.error _, _) => rfl
  | .ok (.ok value, rest) =>
    change ((readPlaces name total depth fields false false rest).bind _).bind _ =
      ((readPlaces name total depth fields false false rest).bind _).map _
    cases readPlaces name total depth fields false false rest with
    | error => rfl
    | ok read =>
      change (pastPlaces read.2.1 read.2.2).map _ = ((pastPlaces read.2.1 read.2.2).map _).map _
      cases pastPlaces read.2.1 read.2.2 <;> rfl

end Rows

/-- **The items of an array take the places of the parts** as they are read. -/
theorem toOption_readRow (name : String) (total : Nat)
    (h : readItems (readValue depth) bound first text = .ok (items, rest)) :
    (readRow name total depth (parts.map Part.field) first text).toOption =
      (Part.ofItems parts items).map fun members => (members, rest) := by
  induction parts generalizing bound first text items with
  | nil =>
    rw [List.map_nil, readRow_nil, toOption_map, toOption_readArrayEnd h]
    cases items <;> rfl
  | cons part parts ih =>
    cases bound with
    | zero => cases h
    | succ bound =>
      obtain ⟨rfl, hnext⟩ | ⟨place, item, behind, more, hnext, hitem, hmore, rfl⟩ := readItems_cases h
      · exact toOption_readRow_end hnext
      · rw [List.map_cons, readRow_of_nextItem hnext, Part.ofItems]
        have hfollows : fitted? (part.field.shape depth place) = _ := part.follows hitem
        cases hform : part.form item with
        | none =>
          rw [hform] at hfollows
          exact toOption_bind_of_fitted?_none hfollows fun mismatch rest => rfl
        | some value =>
          rw [hform] at hfollows
          rw [eq_ok_of_fitted? hfollows, Option.bind_some, Option.map_map]
          change ((readRow name total depth (parts.map Part.field) false behind).map _).toOption = _
          rw [toOption_map, ih hmore, Option.map_map]
          rfl

end Arrays

/-! ## Records -/

section Records
variable {name : String} {parts : List Part} {fields : List Field} {c : Char} {depth : Nat}
  {text behind rest : List Char}

theorem record_array (hspace : skipSpace text = '[' :: behind) :
    record name fields (depth + 1) text =
      (readRow name fields.length depth fields true behind).bind fun read =>
        fits (.object read.1) read.2 := by
  rw [record, hspace, readRow]
  change (readPlaces name fields.length depth fields true false behind).bind _ = _
  cases readPlaces name fields.length depth fields true false behind with
  | error => rfl
  | ok read =>
    obtain ⟨members, ended, rest⟩ := read
    cases ended with
    | true => rfl
    | false =>
      change (readArrayEnd rest).bind _ = ((readArrayEnd rest).map _).bind _
      cases readArrayEnd rest <;> rfl

theorem record_object (hspace : skipSpace text = '\x7b' :: behind) :
    record name fields (depth + 1) text =
      (readFields fields depth (behind.length + 1) true (fields.map fun _ => none) behind).bind
        fun read => match complete fields read.1 with
          | .ok members => fits (.object members) read.2
          | .error mismatch => here (.shape mismatch) read.2 := by
  rw [record, hspace]
  rfl

theorem record_other (hspace : skipSpace text = c :: behind) (harray : c ≠ '[')
    (hobject : c ≠ '\x7b') : fitted? (record name fields depth text) = none := by
  rw [record, hspace]
  dsimp only
  rw [if_neg (by simpa using harray), if_neg (by simpa using hobject)]
  exact fitted?_wrongType ..

/-- **A record takes its fields from the value that stands in the text.** -/
theorem follows_record (name : String) {parts : List Part} (hnames : (parts.map Part.name).Nodup) :
    Follows (record name (parts.map Part.field)) (recordForm parts) := by
  intro depth text rest json h
  obtain ⟨c, behind, hspace, ⟨rfl, inner, items, rfl, rfl, hitems⟩ |
    ⟨rfl, inner, members, rfl, rfl, hmembers⟩ | ⟨harray, hobject, hleaf⟩⟩ := readValue_cases h
  · rw [record_array hspace, fitted?_bind, toOption_readRow name _ hitems, recordForm]
    cases Part.ofItems parts items <;> rfl
  · have hfound := gather?_complete hnames members
    rw [record_object hspace, fitted?_bind, List.map_map]
    change ((readFields (parts.map Part.field) inner (behind.length + 1) true
      (parts.map fun _ => none) behind).toOption.bind _) = _
    rw [toOption_readFields hmembers, recordForm, ← hfound]
    cases gather? parts (parts.map fun _ => none) members with
    | none => rfl
    | some found =>
      dsimp only [Option.map_some, Option.bind_some]
      cases complete (parts.map Part.field) found <;> rfl
  · rw [record_other hspace harray hobject]
    cases leafForm_of_readLeaf hleaf <;> rfl

end Records

/-! ## What records give -/

section Gives
variable {name : String} {parts : List Part} {depth bound : Nat} {first ended : Bool}
  {found filled : List (Option Json)} {members : List (String × Json)}
  {text behind rest : List Char} {json : Json}

/-- The members of a record: each part has a member with its name and a value that its shape gives. -/
def Members (parts : List Part) (members : List (String × Json)) : Prop :=
  List.Forall₂ (fun part member => member.1 = part.name ∧ Gives part.shape member.2) parts members

/-- What stands in a place is given by the shape of its part. -/
def Filled (parts : List Part) (found : List (Option Json)) : Prop :=
  ∀ (place : Nat) (part : Part) (value : Json), parts[place]? = some part →
    found[place]? = some (some value) → Gives part.shape value

theorem Filled.set (h : Filled parts found) {place : Nat} {part : Part} {value : Json}
    (hpart : parts[place]? = some part) (hvalue : Gives part.shape value) :
    Filled parts (found.set place (some value)) := by
  intro other part' value' hpart' hvalue'
  rw [List.getElem?_set] at hvalue'
  split at hvalue'
  next heq =>
    subst heq
    split at hvalue'
    next =>
      obtain rfl := Option.some.inj (hpart.symm.trans hpart')
      obtain rfl := Option.some.inj (Option.some.inj hvalue')
      exact hvalue
    next => cases hvalue'
  next => exact h other part' value' hpart' hvalue'

/-- **One step of reading the fields of an object**: the object ends, or a member of it fills one place
with what the shape of the place gives, or none. -/
theorem readFields_step {fields : List Field}
    (h : readFields fields depth (bound + 1) first found text = .ok (filled, rest)) :
    filled = found ∨ ∃ found' behind,
      readFields fields depth bound false found' behind = .ok (filled, rest) ∧
        (found' = found ∨ ∃ place field value, fields[place]? = some field ∧
          Gives field.shape value ∧ found' = found.set place (some value)) := by
  cases hnext : nextKey first text with
  | error =>
    rw [readFields, hnext] at h
    cases h
  | ok next =>
    obtain ⟨more, keyText⟩ := next
    cases more with
    | false =>
      rw [readFields, hnext] at h
      obtain ⟨rfl, -⟩ := Prod.mk.inj (Except.ok.inj h)
      exact Or.inl rfl
    | true =>
      right
      cases hkey : readString keyText with
      | error =>
        rw [readFields, hnext] at h
        change (readString keyText).bind _ = _ at h
        rw [hkey] at h
        cases h
      | ok key =>
        rw [readFields_of_nextKey hnext hkey] at h
        split at h
        next =>
          obtain ⟨⟨⟨⟩, part⟩, -, h⟩ := bind_eq_ok_iff.mp h
          obtain ⟨behind, -, h⟩ := bind_eq_ok_iff.mp h
          exact ⟨found, behind, h, Or.inl rfl⟩
        next place _ =>
          split at h
          next => cases h
          next =>
            obtain ⟨⟨⟨⟩, part⟩, -, h⟩ := bind_eq_ok_iff.mp h
            split at h
            next => exact ⟨found, part, h, Or.inl rfl⟩
            next field hfield =>
              obtain ⟨⟨value, behind⟩, hvalue, h⟩ := bind_eq_ok_iff.mp h
              cases value with
              | error => cases h
              | ok value =>
                exact ⟨_, behind, h,
                  Or.inr ⟨place, field, value, hfield, ⟨depth, part, behind, hvalue⟩, rfl⟩⟩

theorem Filled.of_readFields (h : Filled parts found)
    (hread : readFields (parts.map Part.field) depth bound first found text = .ok (filled, rest)) :
    Filled parts filled := by
  induction bound generalizing first found text with
  | zero => cases hread
  | succ bound ih =>
    rcases readFields_step hread with
      rfl | ⟨_, _, hmore, rfl | ⟨place, field, value, hfield, hvalue, rfl⟩⟩
    · exact h
    · exact ih h hmore
    · rw [List.getElem?_map, Option.map_eq_some_iff] at hfield
      obtain ⟨part, hpart, rfl⟩ := hfield
      exact ih (h.set hpart hvalue) hmore

theorem Filled.tail {part : Part} {value : Option Json} (h : Filled (part :: parts) (value :: found)) :
    Filled parts found :=
  fun place part value hpart hvalue => h (place + 1) part value hpart hvalue

/-- The members of a record, once its places are filled. -/
theorem members_of_complete (h : Filled parts found)
    (hcomplete : complete (parts.map Part.field) found = .ok members) : Members parts members := by
  induction parts generalizing found members with
  | nil =>
    obtain rfl := Except.ok.inj hcomplete
    exact .nil
  | cons part parts ih =>
    rw [List.map_cons, complete] at hcomplete
    match found, h with
    | [], h => cases hcomplete
    | none :: found, h => cases hcomplete
    | some value :: found, h =>
      change (complete (parts.map Part.field) found).map _ = _ at hcomplete
      cases hothers : complete (parts.map Part.field) found with
      | error =>
        rw [hothers] at hcomplete
        cases hcomplete
      | ok others =>
        rw [hothers] at hcomplete
        obtain rfl := Except.ok.inj hcomplete
        exact .cons ⟨rfl, h 0 part value rfl rfl⟩ (ih h.tail hothers)

/-- **One step of reading the places of an array**: a place has a value that its shape gives. -/
theorem readPlaces_step {part : Part} {fields : List Field} {total : Nat} {ended' : Bool}
    (h : readPlaces name total depth (part.field :: fields) first ended text =
      .ok (members, ended', rest)) :
    ∃ value others behind, Gives part.shape value ∧
      readPlaces name total depth fields false false behind = .ok (others, ended', rest) ∧
        members = (part.name, value) :: others := by
  cases ended with
  | true => cases h
  | false =>
    cases hnext : nextItem first text with
    | error =>
      rw [readPlaces] at h
      dsimp only at h
      rw [if_neg Bool.false_ne_true, hnext] at h
      cases h
    | ok next =>
      obtain ⟨more, place⟩ := next
      cases more with
      | false =>
        rw [readPlaces] at h
        dsimp only at h
        rw [if_neg Bool.false_ne_true, hnext] at h
        cases h
      | true =>
        rw [readPlaces_of_nextItem hnext] at h
        obtain ⟨⟨value, behind⟩, hvalue, h⟩ := bind_eq_ok_iff.mp h
        cases value with
        | error => cases h
        | ok value =>
          obtain ⟨⟨others, ended, last⟩, hothers, h⟩ := bind_eq_ok_iff.mp h
          obtain ⟨rfl, hlast⟩ := Prod.mk.inj (Except.ok.inj h)
          obtain ⟨rfl, rfl⟩ := Prod.mk.inj hlast
          exact ⟨value, others, behind, ⟨depth, place, behind, hvalue⟩, hothers, rfl⟩

theorem members_of_readPlaces {total : Nat} {ended' : Bool}
    (h : readPlaces name total depth (parts.map Part.field) first ended text =
      .ok (members, ended', rest)) : Members parts members := by
  induction parts generalizing first ended text members with
  | nil =>
    obtain ⟨rfl, -⟩ := Prod.mk.inj (Except.ok.inj h)
    exact .nil
  | cons part parts ih =>
    obtain ⟨value, others, behind, hvalue, hothers, rfl⟩ := readPlaces_step h
    exact .cons ⟨rfl, hvalue⟩ (ih hothers)

theorem gives_record_array (hspace : skipSpace text = '[' :: behind)
    (h : record name (parts.map Part.field) (depth + 1) text = .ok (.ok json, rest)) :
    ∃ members, Members parts members ∧ json = .object members := by
  rw [record_array hspace] at h
  obtain ⟨⟨members, last⟩, hrow, h⟩ := bind_eq_ok_iff.mp h
  obtain ⟨⟨found, ended, last'⟩, hplaces, hend⟩ := bind_eq_ok_iff.mp hrow
  have hmembers := members_of_readPlaces hplaces
  cases hpast : pastPlaces ended last' with
  | error =>
    rw [hpast] at hend
    cases hend
  | ok =>
    rw [hpast] at hend
    obtain ⟨rfl, -⟩ := Prod.mk.inj (Except.ok.inj hend)
    obtain ⟨hjson, -⟩ := Prod.mk.inj (Except.ok.inj h)
    exact ⟨found, hmembers, (Except.ok.inj hjson).symm⟩

theorem gives_record_object (hspace : skipSpace text = '\x7b' :: behind)
    (h : record name (parts.map Part.field) (depth + 1) text = .ok (.ok json, rest)) :
    ∃ members, Members parts members ∧ json = .object members := by
  rw [record_object hspace] at h
  obtain ⟨⟨found, last⟩, hfields, h⟩ := bind_eq_ok_iff.mp h
  have hempty : Filled parts ((parts.map Part.field).map fun _ => none) := by
    intro place part value hpart hvalue
    simp at hvalue
  split at h
  next members hcomplete =>
    obtain ⟨hjson, -⟩ := Prod.mk.inj (Except.ok.inj h)
    exact ⟨members, members_of_complete (hempty.of_readFields hfields) hcomplete,
      (Except.ok.inj hjson).symm⟩
  next => cases h

/-- A record is given as an object of its fields, in their order. -/
theorem gives_record (h : Gives (record name (parts.map Part.field)) json) :
    ∃ members, Members parts members ∧ json = .object members := by
  obtain ⟨depth, text, rest, h⟩ := h
  cases hspace : skipSpace text with
  | nil =>
    rw [record, hspace] at h
    cases h
  | cons c behind =>
    by_cases harray : c = '['
    · subst harray
      cases depth with
      | zero =>
        rw [record, hspace] at h
        cases h
      | succ depth => exact gives_record_array hspace h
    · by_cases hobject : c = '\x7b'
      · subst hobject
        cases depth with
        | zero =>
          rw [record, hspace] at h
          cases h
        | succ depth => exact gives_record_object hspace h
      · have hnone :=
          @record_other name (parts.map Part.field) c depth text behind hspace harray hobject
        rw [h] at hnone
        cases hnone

end Gives

end QueryLocator.JsonShape
