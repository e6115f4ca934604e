import QueryLocator.FileSystem
import QueryLocator.Wire
import QueryLocator.Yaml.Content

/-! # Loading configurations

The name of a file says how it is written: the extensions `yml` and `yaml` stand for YAML, `json` for
JSON.  A file named `.graphqlrc` is read as YAML, and as JSON if that fails.  Only a configuration
without a fault is accepted.
-/
namespace QueryLocator

/-- The ways in which a configuration may be written. -/
inductive ConfigFormat where
  | yaml
  | json
  /-- YAML, or else JSON. -/
  | yamlOrJson
  deriving DecidableEq, Repr

/-- The format that a path stands for. -/
def Path.configFormat? (path : Path) : Option ConfigFormat :=
  match String.ofList path.extension with
  | "yml" | "yaml" => some .yaml
  | "json" => some .json
  | "" => if path.fileName? = some ".graphqlrc".toList then some .yamlOrJson else none
  | _ => none

/-- Why a text is not a configuration. -/
inductive ConfigProblem where
  | yaml (failure : Yaml.Failure)
  | json (failure : JsonFailure) (text : List Char)
  | unusable (project : String) (fault : ProjectFault)

/-- The wording of a problem. -/
def ConfigProblem.message : ConfigProblem → String
  | yaml failure => s!"YAML parse error: {failure.message}"
  | json failure text => s!"JSON parse error: {failure.message text}"
  | unusable project fault => fault.message project

/-- Why a configuration cannot be loaded. -/
inductive ConfigFailure where
  | file (fault : FileFault)
  | invalid (path : Path) (problem : ConfigProblem)
  | unsupportedFormat (path : Path)

/-- The wording of a failure. -/
def ConfigFailure.message : ConfigFailure → String
  | file fault => s!"IO error: {fault.message}"
  | invalid path problem => s!"Invalid configuration at {path.text}: {problem.message}"
  | unsupportedFormat path => s!"Unsupported config file format: {path.text}"

namespace Config

/-- Reads a configuration that is written as YAML. -/
def ofYaml (text : String) : Except ConfigProblem Config :=
  let fit (datum : Datum) : Except Mismatch Config :=
    match datum.config? with
    | some config => .ok config
    | none => .error (.noVariant "ConsoleConfig")
  (Yaml.read fit text.toList).mapError .yaml

/-- Reads a configuration that is written as JSON. -/
def ofJson (text : String) : Except ConfigProblem Config :=
  (Wire.decode Config text).mapError fun failure => .json failure text.toList

/-- Reads a configuration in a format. -/
def ofText (format : ConfigFormat) (text : String) : Except ConfigProblem Config :=
  match format with
  | .yaml => ofYaml text
  | .json => ofJson text
  | .yamlOrJson =>
    match ofYaml text with
    | .ok config => .ok config
    | .error _ => ofJson text

/-- Accepts a configuration that has no fault. -/
def check (config : Config) : Except ConfigProblem Config :=
  match config.fault? with
  | some (project, fault) => .error (.unusable project fault)
  | none => .ok config

/-- Reads the text of the file at a path. -/
def read (path : Path) (text : String) : Except ConfigFailure Config :=
  match path.configFormat? with
  | none => .error (.unsupportedFormat path)
  | some format => ((ofText format text).bind check).mapError (.invalid path)

/-- Loads the file at a path. -/
def load (files : FileSystem) (path : Path) : Except ConfigFailure Config :=
  match files.readText path with
  | .ok text => read path text
  | .error fault => .error (.file fault)

end Config
end QueryLocator
