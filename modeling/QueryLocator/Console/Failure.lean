import QueryLocator.Config.Loading

/-! # Failures of the console

Why the console gives up before it looks at a document.  A failure is reported with what caused it:
a single cause stands alone, several causes are numbered.
-/
namespace QueryLocator.Console

/-- Why the console gives up. -/
inductive Failure where
  | config (path : Path) (failure : ConfigFailure)
  | projectWithoutConfig (project : String)
  | unknownProject (project : String)
  | document (path : Path) (fault : FileFault)

namespace Failure

/-- What went wrong. -/
def headline : Failure → String
  | config path _ => s!"Failed to load config {path.text}"
  | projectWithoutConfig project =>
    s!"Project '{project}' requested but no GraphQL config file was found"
  | unknownProject project => s!"Project '{project}' not found"
  | document path _ => s!"Failed to read {path.text}"

/-- What caused it, the nearest cause first. -/
def causes : Failure → List String
  | config _ failure =>
    match failure with
    | .file fault => [failure.message, fault.message]
    | _ => [failure.message]
  | projectWithoutConfig _ | unknownProject _ => []
  | document _ fault => [fault.message]

/-- A text whose further lines begin with an indentation. -/
def indented (indentation : String) (text : String) : String :=
  String.ofList <| text.toList.flatMap fun c =>
    if c = '\n' then '\n' :: indentation.toList else [c]

/-- Numbered causes, each on lines of its own. -/
def numbered : Nat → List String → String
  | _, [] => ""
  | number, cause :: rest =>
    let text := indented "       " cause
    s!"    {number}: {text}\n" ++ numbered (number + 1) rest

/-- The report of a failure. -/
def report (failure : Failure) : String :=
  let head := s!"Error: {failure.headline}\n"
  match failure.causes with
  | [] => head
  | [cause] =>
    let text := indented "    " cause
    s!"{head}\nCaused by:\n    {text}\n"
  | causes =>
    let text := numbered 0 causes
    s!"{head}\nCaused by:\n{text}"

end Failure
end QueryLocator.Console
