import QueryLocator.Config.Search
import QueryLocator.Console.Failure
import QueryLocator.Console.Invocation
import QueryLocator.Console.Style

/-! # Running the console

The scope of the explorer is settled first, then the document is read, then it is inspected or
outlined.  Results go to the output with code 0, everything that went wrong to the errors with
code 1, and arguments without sense to the errors with code 2.

A report for people counts lines and columns from one, in 64 bits.  The largest count has no successor;
a report that needs it traps there, and the run ends in the middle of it.

What is logged on the way also goes to the errors, in front of everything else that a run writes there.
It is kept apart here, as the log may be turned off.
-/
namespace QueryLocator.Console

open Json (maxUnsigned)

/-- The counts of a position. -/
inductive Coordinate where
  | line
  | column
  deriving DecidableEq, Repr

/-- How a run ends. -/
inductive Ending where
  | exited (code : Nat)
  /-- A report needed the successor of the largest count. -/
  | trapped (coordinate : Coordinate)
  deriving DecidableEq, Repr

/-- The code that is seen from outside. -/
def Ending.code : Ending → Nat
  | exited code => code
  | trapped _ => 101

/-- What is said about a trap.  Where in the program it happened is told in front of this. -/
def trapMessage : String :=
  "attempt to add with overflow"

/-- What a run of the console leaves behind. -/
structure Outcome where
  ending : Ending
  /-- What was logged, before anything was written. -/
  log : List LogEntry
  output : String
  /-- What the run itself wrote to the errors. -/
  errors : String
  deriving DecidableEq, Repr

namespace Outcome

/-- The code that a run ends with. -/
def code (outcome : Outcome) : Nat :=
  outcome.ending.code

/-- A run that gave a result. -/
def success (output : String) : Outcome :=
  ⟨.exited 0, [], output, ""⟩

/-- A run that gave none. -/
def failure (errors : String) : Outcome :=
  ⟨.exited 1, [], "", errors⟩

/-- A run that gave none and reported why, unless the report was cut off by a trap. -/
def reported : String × Option Coordinate → Outcome
  | (errors, none) => failure errors
  | (errors, some coordinate) => ⟨.trapped coordinate, [], "", errors⟩

/-- The run with entries in its log. -/
def logged (outcome : Outcome) (entries : List LogEntry) : Outcome :=
  { outcome with log := entries ++ outcome.log }

/-- Everything that is left on the errors, when entries of the log and a trap are written in some
form. -/
def allErrors (outcome : Outcome) (entryText : LogEntry → String) (trapText : Coordinate → String) :
    String :=
  let report :=
    match outcome.ending with
    | .exited _ => ""
    | .trapped coordinate => trapText coordinate
  String.join (outcome.log.map entryText) ++ outcome.errors ++ report

end Outcome

/-! ## The scope -/

/-- The configuration file in use: the given one, else the one for the working directory. -/
def Invocation.configPath? (invocation : Invocation) (files : FileSystem) : Option Path :=
  match invocation.config with
  | some path => some path
  | none => Config.find? files files.workingDirectory

/-- The scope that the configuration gives to the project in use. -/
def Invocation.scope (invocation : Invocation) (files : FileSystem) : Except Failure Namespace :=
  match invocation.configPath? files with
  | none =>
    match invocation.project with
    | some project => .error (.projectWithoutConfig project)
    | none => .ok default
  | some path =>
    match Config.load files path with
    | .error failure => .error (.config path failure)
    | .ok config =>
      match config.select? invocation.project with
      | some (_, project) => .ok project.explorer.scope
      | none => .error (.unknownProject (invocation.project.getD Config.defaultName))

/-- The paths that an invocation may look at, seen from a working directory. -/
def Invocation.paths (invocation : Invocation) (workingDirectory : Path) : List Path :=
  match invocation.config with
  | some path => [path, invocation.file]
  | none => workingDirectory.ancestors.flatMap Config.candidates ++ [invocation.file]

/-! ## Reports for people -/

/-- A line or a column counted from one. -/
def ordinal (coordinate : Coordinate) (count : Nat) : Except Coordinate Nat :=
  if count < maxUnsigned then .ok (count + 1) else .error coordinate

/-- A diagnostic about a file. -/
def diagnosticLine (color : Bool) (file : Path) (diagnostic : Diagnostic) :
    Except Coordinate String := do
  let line ← ordinal .line diagnostic.range.start.line
  let column ← ordinal .column diagnostic.range.start.character
  let mark := String.ofList (paint color .boldRed 0 "error:")
  return s!"{file.text}:{line}:{column}: {mark} {diagnostic.message}\n"

/-- Diagnostics about a file, a line each, up to the first that traps. -/
def diagnosticLines (color : Bool) (file : Path) : List Diagnostic → String × Option Coordinate
  | [] => ("", none)
  | diagnostic :: rest =>
    match diagnosticLine color file diagnostic with
    | .error coordinate => ("", some coordinate)
    | .ok line =>
      let (lines, trap) := diagnosticLines color file rest
      (line ++ lines, trap)

/-- The node that was found. -/
def targetLines (color : Bool) (target : Target) : String :=
  let kind := String.ofList (paint color .cyan 0 target.kind.label)
  let name := String.ofList (paint color .bold 0 target.name)
  s!"{kind} {name}\n  selector: {target.selector}\n  span:     {target.span.display}\n"

/-- The line for a position outside every definition. -/
def notFoundLine (color : Bool) (position : Position) : String :=
  let text := s!"No definition at {position.line}:{position.character}"
  String.ofList (paint color .yellow 0 text) ++ "\n"

/-- The line of a node in an outline. -/
def outlineLine (color : Bool) (target : Target) : String :=
  let kind := String.ofList (paint color .cyan 14 target.kind.label)
  let name := String.ofList (paint color .bold 24 target.name)
  let selector := String.ofList (paint color .dimmed 0 target.selector)
  s!"{kind} {name} {selector}\n"

/-- The lines of an outline. -/
def outlineLines (color : Bool) (targets : List Target) : String :=
  let total := String.ofList (paint color .green 0 s!"{targets.length} definitions")
  String.join (targets.map (outlineLine color)) ++ s!"\n{total}\n"

/-! ## Reports for programs -/

/-- What a position resolves to. -/
def resolutionJson : Resolution → Json
  | .found target => .object [("found", .boolean true), ("target", Wire.toJson target)]
  | .notFound => .object [("found", .boolean false)]

/-- Why a position cannot be resolved. -/
def resolveFailureJson (failure : ResolveFailure) (text : String) : Json :=
  .object [("error", .string failure.message),
    ("diagnostics", .array ((failure.diagnostics text).map Wire.toJson))]

/-- The nodes of a document. -/
def outlineJson (targets : List Target) : Json :=
  .array (targets.map Wire.toJson)

/-- Why a document has no outline. -/
def parseFailureJson (failure : ParseFailure) : Json :=
  .object [("error", .string failure.message)]

/-! ## Runs -/

/-- Reports what a position in a document resolves to. -/
def inspect (color : Bool) (format : OutputFormat) (scope : Namespace) (file : Path)
    (text : String) (position : Position) : Outcome :=
  match resolve syntaxTokenizer scope text position, format with
  | .ok (.found target), .human => .success (targetLines color target)
  | .ok .notFound, .human => .success (notFoundLine color position)
  | .ok resolution, .json => .success ((resolutionJson resolution).render ++ "\n")
  | .error failure, .human =>
    (Outcome.reported (diagnosticLines color file (failure.diagnostics text))).logged
      [failure.logEntry position]
  | .error failure, .json =>
    (Outcome.failure ((resolveFailureJson failure text).render ++ "\n")).logged
      [failure.logEntry position]

/-- Reports the definitions of a document.  That it does not parse is reported, but not logged. -/
def outline (color : Bool) (format : OutputFormat) (scope : Namespace) (file : Path)
    (text : String) : Outcome :=
  match Document.parse text, format with
  | .ok document, .human => .success (outlineLines color (document.outline scope))
  | .ok document, .json => .success ((outlineJson (document.outline scope)).renderPretty ++ "\n")
  | .error failure, .human => .reported (diagnosticLines color file (failure.diagnostics text))
  | .error failure, .json => .failure ((parseFailureJson failure).render ++ "\n")

/-- Does what an invocation asks for. -/
def Invocation.run (invocation : Invocation) (color : Bool) (files : FileSystem) : Outcome :=
  match invocation.scope files with
  | .error failure => .failure failure.report
  | .ok scope =>
    match files.readText invocation.file with
    | .error fault => .failure (Failure.document invocation.file fault).report
    | .ok text =>
      match invocation.action with
      | .inspect line column =>
        inspect color invocation.format scope invocation.file text ⟨line, column⟩
      | .outline => outline color invocation.format scope invocation.file text

/-- The version of the program. -/
def versionLine : String :=
  "graphql-console 0.1.0\n"

/-- How the program is used.  As with the faults of usage, the wording is this library's own. -/
def usageText : String :=
  "Usage: graphql-console [-c FILE] [-p PROJECT] inspect FILE -l LINE -C COLUMN [-f FORMAT]\n" ++
  "       graphql-console [-c FILE] [-p PROJECT] outline FILE [-f FORMAT]\n"

/-- Runs the console with the given arguments. -/
def run (arguments : List String) (color : Bool) (files : FileSystem) : Outcome :=
  match Invocation.ofArguments arguments with
  | .ok invocation => invocation.run color files
  | .error .version => .success versionLine
  | .error .help => .success usageText
  | .error (.usage fault) => ⟨.exited 2, [], "", s!"error: {fault.message}\n\n" ++ usageText⟩

end QueryLocator.Console
