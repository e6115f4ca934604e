import QueryLocator.Config.Basic

/-! # Configurations as JSON

A single project is written as it is, named projects under one key, in order of their names.  An
extension that is absent is left out.
-/
namespace QueryLocator

/-- A schema as JSON. -/
def Schema.toJson : Schema → Json
  | path source => .string source
  | paths sources => .array (sources.map .string)

/-- The settings of the explorer as JSON. -/
def Explorer.toJson (explorer : Explorer) : Json :=
  .object [("rootSelector", .string explorer.rootSelector)]

/-- A project as JSON. -/
def Project.toJson (project : Project) : Json :=
  .object <|
    [("schema", project.schema.toJson), ("explorer", project.explorer.toJson)] ++
      (project.extensions.map fun extensions => ("extensions", Json.object extensions.entries)).toList

/-- A configuration as JSON. -/
def Config.toJson : Config → Json
  | single project => project.toJson
  | multi projects =>
    .object [("projects",
      .object (projects.entries.map fun (name, project) => (name, project.toJson)))]

end QueryLocator
