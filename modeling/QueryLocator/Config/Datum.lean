import QueryLocator.Config.Basic

/-! # Data of a configuration file

A configuration file is first read as plain data, whatever format it is written in, and then fitted to
the shape of a configuration.  A single project is tried before named projects, a single source
before a list of sources.  Members with unknown names are passed over; a name must not come twice
where it is known.
-/
namespace QueryLocator

open Decimal

/-- Plain data.  Keys of a map may be of any kind, and the same key may come again. -/
inductive Datum where
  | null
  | boolean (value : Bool)
  | integer (value : Int)
  /-- A floating point number; nothing stands for the ones that are not finite. -/
  | float (value : Option (Bool × Binary64))
  | string (value : String)
  | sequence (items : List Datum)
  | map (members : List (Datum × Datum))
  deriving Inhabited

namespace Json

mutual

/-- A JSON value as plain data. -/
def datum : Json → Datum
  | null => .null
  | boolean value => .boolean value
  | number (.integer value) => .integer value
  | number (.float negative magnitude) => .float (some (negative, magnitude))
  | string value => .string value
  | array items => .sequence (itemData items)
  | object members => .map (memberData members)

/-- Items as plain data. -/
def itemData : List Json → List Datum
  | [] => []
  | item :: rest => item.datum :: itemData rest

/-- Members as plain data. -/
def memberData : List (String × Json) → List (Datum × Datum)
  | [] => []
  | (key, value) :: rest => (.string key, value.datum) :: memberData rest

end

end Json

namespace Datum

mutual

/-- The data as a JSON value, if all keys are strings.  Numbers that are not finite become null. -/
def json? : Datum → Option Json
  | null => some .null
  | boolean value => some (.boolean value)
  | integer value => some (.number (.integer value))
  | float (some (negative, magnitude)) => some (.number (.float negative magnitude))
  | float none => some .null
  | string value => some (.string value)
  | sequence items => (jsonItems? items).map .array
  | map members => (jsonMembers? members).map fun members => .object (Json.unique members)

/-- Items as JSON values. -/
def jsonItems? : List Datum → Option (List Json)
  | [] => some []
  | item :: rest =>
    match item.json?, jsonItems? rest with
    | some item, some rest => some (item :: rest)
    | _, _ => none

/-- Members as members of a JSON object. -/
def jsonMembers? : List (Datum × Datum) → Option (List (String × Json))
  | [] => some []
  | (string key, value) :: rest =>
    match value.json?, jsonMembers? rest with
    | some value, some rest => some ((key, value) :: rest)
    | _, _ => none
  | _ :: _ => none

end

/-- A string. -/
def string? : Datum → Option String
  | string value => some value
  | _ => none

/-- A list of strings. -/
def strings? : Datum → Option (List String)
  | sequence items => items.mapM string?
  | _ => none

/-- A map with strings for keys, whose values are read by the given function. -/
def dictionary? {α : Type} (value? : Datum → Option α) : Datum → Option (Dictionary α)
  | map members =>
    (members.mapM fun (member : Datum × Datum) =>
      match member.1.string?, value? member.2 with
      | some name, some value => some (name, value)
      | _, _ => none).map Dictionary.ofList
  | _ => none

/-- The place of a field that a key names: by its name, or by its number. -/
inductive FieldKey where
  | field (place : Nat)
  | unknown

/-- The field that a key names.  Only strings and numbers without a sign are keys of fields. -/
def fieldKey? (names : List String) : Datum → Option FieldKey
  | string name =>
    match names.findIdx? (· = name) with
    | some place => some (.field place)
    | none => some .unknown
  | integer value =>
    if value < 0 then none
    else if value < names.length then some (.field value.toNat)
    else some .unknown
  | _ => none

/-- The values of the fields of a map, in the order of their names.  A field must not come twice. -/
def fields? (names : List String) (members : List (Datum × Datum)) : Option (List (Option Datum)) :=
  members.foldlM (fun (found : List (Option Datum)) (member : Datum × Datum) =>
    match fieldKey? names member.1 with
    | none => none
    | some .unknown => some found
    | some (.field place) =>
      match found[place]? with
      | some none => some (found.set place (some member.2))
      | _ => none) (names.map fun _ => none)

/-- A schema: one source, or a list of sources. -/
def schema? (datum : Datum) : Option Schema :=
  match datum.string? with
  | some source => some (.path source)
  | none => datum.strings?.map .paths

/-- The settings of the explorer, as a map or as a list of its fields. -/
def explorer? : Datum → Option Explorer
  | map members => do
    match ← fields? ["rootSelector"] members with
    | [some root] => return ⟨← root.string?⟩
    | _ => return default
  | sequence [] => some default
  | sequence [root] => root.string?.map Explorer.mk
  | _ => none

/-- The extensions of a project, or null for none. -/
def extensions? : Datum → Option (Option (Dictionary Json))
  | null => some none
  | datum => (datum.dictionary? json?).map some

/-- A project, as a map or as a list of its three fields. -/
def project? : Datum → Option Project
  | map members => do
    match ← fields? ["schema", "explorer", "extensions"] members with
    | [some schema, explorer, extensions] =>
      return {
        schema := ← schema.schema?
        explorer := ← explorer.elim (some default) explorer?
        extensions := ← extensions.elim (some none) extensions? }
    | _ => none
  | sequence [schema, explorer, extensions] => do
    return ⟨← schema.schema?, ← explorer.explorer?, ← extensions.extensions?⟩
  | _ => none

/-- Named projects, which only a map can hold. -/
def projects? : Datum → Option (Dictionary Project)
  | map members => do
    match ← fields? ["projects"] members with
    | [some projects] => projects.dictionary? project?
    | _ => none
  | _ => none

/-- A configuration: a single project, or else named projects. -/
def config? (datum : Datum) : Option Config :=
  match datum.project? with
  | some project => some (.single project)
  | none => datum.projects?.map .multi

end Datum
end QueryLocator
