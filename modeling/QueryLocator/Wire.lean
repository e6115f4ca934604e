import QueryLocator.Config.Datum
import QueryLocator.Config.Encoding
import QueryLocator.Json.Printer
import QueryLocator.Json.Shape
import QueryLocator.Resolution

/-! # Wire forms

How the values that leave the console are written as JSON and read back.  Each type has a shape, a
writer, and a reader of the canonical form that its shape gives.
-/
namespace QueryLocator

/-- A type whose values are written as JSON and read back. -/
class Wire (α : Type) where
  /-- What a text has to look like. -/
  shape : JsonShape
  /-- The value of a canonical form. -/
  ofJson? : Json → Option α
  /-- The canonical form of a value. -/
  toJson : α → Json

namespace Wire

open JsonShape

/-- Writes a value. -/
def encode {α : Type} [Wire α] (value : α) : String :=
  (toJson value).render

/-- Reads a text as a value. -/
def decode (α : Type) [Wire α] (text : String) : Except JsonFailure α :=
  match readText (shape α) text.toList with
  | .error failure => .error failure
  | .ok json =>
    match ofJson? json with
    | some value => .ok value
    | none => .error ⟨.expectedValue, none⟩

/-- A count, if the value is one. -/
def count? : Json → Option Nat
  | .number (.integer value) => if 0 ≤ value then some value.toNat else none
  | _ => none

/-- A string, if the value is one. -/
def string? : Json → Option String
  | .string value => some value
  | _ => none

/-- The values of the members of an object. -/
def values? : Json → Option (List Json)
  | .object members => some (members.map Prod.snd)
  | _ => none

instance : Wire Position where
  shape := record "Position" [⟨"line", count, none, none⟩, ⟨"character", count, none, none⟩]
  ofJson? json := do
    match ← values? json with
    | [line, character] => return ⟨← count? line, ← count? character⟩
    | _ => none
  toJson position :=
    .object [("line", .ofNat position.line), ("character", .ofNat position.character)]

instance : Wire Span where
  shape := record "Span" [⟨"start", count, none, none⟩, ⟨"end", count, none, none⟩]
  ofJson? json := do
    match ← values? json with
    | [start, stop] => return ⟨← count? start, ← count? stop⟩
    | _ => none
  toJson span := .object [("start", .ofNat span.start), ("end", .ofNat span.stop)]

instance : Wire Range where
  shape := record "Range" [⟨"start", shape Position, none, none⟩, ⟨"end", shape Position, none, none⟩]
  ofJson? json := do
    match ← values? json with
    | [start, stop] => return ⟨← ofJson? start, ← ofJson? stop⟩
    | _ => none
  toJson range := .object [("start", toJson range.start), ("end", toJson range.stop)]

instance : Wire Severity where
  shape := choice ["error"]
  ofJson? json := do
    match ← string? json with
    | "error" => some .error
    | _ => none
  toJson
    | .error => .string "error"

instance : Wire Diagnostic where
  shape := record "Diagnostic"
    [⟨"severity", shape Severity, none, none⟩, ⟨"range", shape Range, none, none⟩,
      ⟨"message", text, none, none⟩, ⟨"source", text, none, none⟩]
  ofJson? json := do
    match ← values? json with
    | [severity, range, message, source] =>
      return ⟨← ofJson? severity, ← ofJson? range, ← string? message, ← string? source⟩
    | _ => none
  toJson diagnostic :=
    .object [("severity", toJson diagnostic.severity), ("range", toJson diagnostic.range),
      ("message", .string diagnostic.message), ("source", .string diagnostic.source)]

instance : Wire OperationType where
  shape := choice ["query", "mutation", "subscription"]
  ofJson? json := (string? json).bind OperationType.ofKeyword?
  toJson type := .string type.keyword

instance : Wire DefinitionKind where
  shape := choice ["query", "mutation", "subscription", "fragment", "unknown"]
  ofJson? json := (string? json).bind DefinitionKind.ofLabel?
  toJson kind := .string kind.label

instance : Wire Classification where
  shape := record "Classification"
    [⟨"kind", shape DefinitionKind, none, none⟩, ⟨"name", text, none, none⟩]
  ofJson? json := do
    match ← values? json with
    | [kind, name] => return ⟨← ofJson? kind, ← string? name⟩
    | _ => none
  toJson classification :=
    .object [("kind", toJson classification.kind), ("name", .string classification.name)]

instance : Wire Target where
  shape := record "ResolvedTarget"
    [⟨"kind", shape DefinitionKind, none, none⟩, ⟨"name", text, none, none⟩,
      ⟨"selector", text, none, none⟩, ⟨"span", shape Span, none, none⟩]
  ofJson? json := do
    match ← values? json with
    | [kind, name, selector, span] =>
      return ⟨← ofJson? kind, ← string? name, ← string? selector, ← ofJson? span⟩
    | _ => none
  toJson target :=
    .object [("kind", toJson target.kind), ("name", .string target.name),
      ("selector", .string target.selector), ("span", toJson target.span)]

instance : Wire Explorer where
  shape :=
    let root := Json.string Namespace.defaultRoot
    record "ExplorerConfig" [⟨"rootSelector", text, some root, some root⟩]
  ofJson? json := json.datum.explorer?
  toJson := Explorer.toJson

instance : Wire Schema where
  shape := oneOf "SchemaConfig" fun json => json.datum.schema?.isSome
  ofJson? json := json.datum.schema?
  toJson := Schema.toJson

instance : Wire Project where
  shape :=
    let explorer := Explorer.toJson default
    record "ProjectConfig"
      [⟨"schema", shape Schema, none, none⟩,
        ⟨"explorer", shape Explorer, some explorer, some explorer⟩,
        ⟨"extensions", optionalObject, some .null, none⟩]
  ofJson? json := json.datum.project?
  toJson := Project.toJson

instance : Wire Config where
  shape := oneOf "ConsoleConfig" fun json => json.datum.config?.isSome
  ofJson? json := json.datum.config?
  toJson := Config.toJson

end Wire
end QueryLocator
