import QueryLocator.Config.Dictionary
import QueryLocator.Json.Value
import QueryLocator.Selector
import QueryLocator.Text.Blank

/-! # Configurations

A configuration describes one project, or several projects by name.  A project says where its schema
comes from and how the explorer scopes its selectors; what other tools keep in it is carried along.
-/
namespace QueryLocator

/-- Where the schema of a project comes from: a file or an endpoint, or a list of them. -/
inductive Schema where
  | path (source : String)
  | paths (sources : List String)
  deriving DecidableEq, Repr

namespace Schema

/-- The files and endpoints, in order. -/
def sources : Schema → List String
  | path source => [source]
  | paths sources => sources

/-- Whether a source is an endpoint of the web. -/
def isEndpoint (source : String) : Bool :=
  source.startsWith "http://" || source.startsWith "https://"

/-- A schema is served when one of its sources is an endpoint. -/
def isServed (schema : Schema) : Bool :=
  schema.sources.any isEndpoint

end Schema

/-- The settings of the explorer. -/
structure Explorer where
  /-- The scope that all selectors begin with. -/
  rootSelector : String
  deriving DecidableEq, Repr

instance : Inhabited Explorer := ⟨⟨Namespace.defaultRoot⟩⟩

/-- The scope that the explorer is configured with. -/
def Explorer.scope (explorer : Explorer) : Namespace :=
  ⟨explorer.rootSelector⟩

/-- One project. -/
structure Project where
  schema : Schema
  explorer : Explorer
  /-- What other tools keep with the project. -/
  extensions : Option (Dictionary Json)

/-- A configuration. -/
inductive Config where
  | single (project : Project)
  | multi (projects : Dictionary Project)

namespace Config

/-- The name of the only project of a configuration. -/
def defaultName : String := "default"

/-- The projects with their names, in order of the names. -/
def projects : Config → List (String × Project)
  | single project => [(defaultName, project)]
  | multi projects => projects.entries

/-- The project with a name. -/
def project? (config : Config) (name : String) : Option Project :=
  match config with
  | single project => if name = defaultName then some project else none
  | multi projects => projects.get? name

/-- The project to work with: the one with the given name, or the first one when no name is
given. -/
def select? (config : Config) : Option String → Option (String × Project)
  | some name => config.projects.find? (·.1 = name)
  | none => config.projects.head?

/-- Whether the configuration names its projects. -/
def isMulti : Config → Bool
  | single _ => false
  | multi _ => true

end Config

/-- What makes a project unusable. -/
inductive ProjectFault where
  | noSource
  | blankSource
  | blankRootSelector
  deriving DecidableEq, Repr

/-- The wording of a fault. -/
def ProjectFault.message (fault : ProjectFault) (name : String) : String :=
  match fault with
  | noSource => s!"Project '{name}' has empty schema configuration"
  | blankSource => s!"Project '{name}' has empty schema path"
  | blankRootSelector => s!"Project '{name}' has empty explorer root selector"

/-- The first fault of a project. -/
def Project.fault? (project : Project) : Option ProjectFault :=
  if project.schema.sources.isEmpty then some .noSource
  else if project.schema.sources.any Text.isBlank then some .blankSource
  else if Text.isBlank project.explorer.rootSelector then some .blankRootSelector
  else none

/-- The first project with a fault, in order of the names, and its first fault. -/
def Config.fault? (config : Config) : Option (String × ProjectFault) :=
  config.projects.findSome? fun (name, project) => project.fault?.map fun fault => (name, fault)

end QueryLocator
