import QueryLocator.Console.Run

/-! # The program

Looks at the files that the arguments may lead to, runs the console on what was seen, and writes what
the run leaves behind.  Entries of the log and traps are written in a plain form, without the time and
the place in the program.
-/

namespace QueryLocator.Console

/-- The reason for a failed look at a file. -/
def faultOf (error : IO.Error) : FileFault :=
  match error with
  | .noFileOrDirectory .. => .missing
  | .inappropriateType _ 21 _ => .isDirectory
  | .inappropriateType .. => .notDirectory
  | .permissionDenied .. => .other "Permission denied (os error 13)"
  | error => .other (toString error)

/-- Looks at a path.  A file that must not be read is a file as well. -/
def observe (path : Path) : IO Observation := do
  try
    let content ← IO.FS.readBinFile path.text
    return ⟨path, true, .ok content⟩
  catch error =>
    let isFile :=
      match error with
      | .permissionDenied .. => true
      | _ => false
    return ⟨path, isFile, .error (faultOf error)⟩

/-- Whether results are to be colored: as the environment asks, else on a terminal. -/
def wantsColor : IO Bool := do
  match ← IO.getEnv "CLICOLOR_FORCE", ← IO.getEnv "NO_COLOR" with
  | some force, _ => return force != "0"
  | none, some _ => return false
  | none, none => (← IO.getStdout).isTty

end QueryLocator.Console

open QueryLocator

/-- The program. -/
def main (arguments : List String) : IO UInt32 := do
  let workingDirectory : Path := ⟨toString (← IO.currentDir)⟩
  let paths :=
    match Console.Invocation.ofArguments arguments with
    | .ok invocation => invocation.paths workingDirectory
    | .error _ => []
  let files := FileSystem.ofObservations workingDirectory (← paths.mapM Console.observe)
  let outcome := Console.run arguments (← Console.wantsColor) files
  IO.print outcome.output
  IO.eprint (outcome.allErrors LogEntry.line fun _ => Console.trapMessage ++ "\n")
  return outcome.code.toUInt32
