import QueryLocator.Path

/-! # File systems

What the console asks of a file system: the directory it works in, whether a path leads to a regular
file, and what is in the file.  Nothing is ever written.
-/
namespace QueryLocator

/-- Why a file cannot be read. -/
inductive FileFault where
  | missing
  | notDirectory
  | isDirectory
  | nameTooLong
  | nullByte
  /-- The content is not UTF-8. -/
  | notText
  /-- Any other reason, in the words of the file system. -/
  | other (text : String)
  deriving DecidableEq, Repr

/-- The wording of a fault. -/
def FileFault.message : FileFault → String
  | missing => "No such file or directory (os error 2)"
  | notDirectory => "Not a directory (os error 20)"
  | isDirectory => "Is a directory (os error 21)"
  | nameTooLong => "File name too long (os error 36)"
  | nullByte => "file name contained an unexpected NUL byte"
  | notText => "stream did not contain valid UTF-8"
  | other text => text

/-- The state of a file system. -/
structure FileSystem where
  /-- The absolute path of the directory that relative paths begin in. -/
  workingDirectory : Path
  isFile : Path → Bool
  content : Path → Except FileFault ByteArray

/-- The text of a file. -/
def FileSystem.readText (files : FileSystem) (path : Path) : Except FileFault String := do
  let bytes ← files.content path
  match String.fromUTF8? bytes with
  | some text => return text
  | none => throw .notText

/-- What was seen at a path. -/
structure Observation where
  path : Path
  isFile : Bool
  content : Except FileFault ByteArray

/-- The file system as far as it has been seen.  Nothing is known of other paths, and no file is taken
to be there. -/
def FileSystem.ofObservations (workingDirectory : Path) (seen : List Observation) : FileSystem where
  workingDirectory
  isFile path := (seen.find? (·.path = path)).any Observation.isFile
  content path := ((seen.find? (·.path = path)).map Observation.content).getD (.error .missing)

end QueryLocator
