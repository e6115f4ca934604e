import QueryLocator.FileSystem

/-! # Trees of files

A tree of directories and files, and the file system that it makes up.  A path is followed name by
name: two dots lead to the directory above, which is the root itself at the root.
-/
namespace QueryLocator

/-- A file, or a directory with its entries. -/
inductive FileTree where
  | file (content : ByteArray)
  | directory (entries : List (String × FileTree))

namespace FileTree

/-- The entry of a directory with a name. -/
def child? (name : String) : List (String × FileTree) → Option FileTree
  | [] => none
  | (found, tree) :: rest => if found = name then some tree else child? name rest

/-- Puts an entry into a directory in place of the one with its name. -/
def setEntry (name : String) (tree : FileTree) :
    List (String × FileTree) → List (String × FileTree)
  | [] => [(name, tree)]
  | (found, old) :: rest =>
    if found = name then (name, tree) :: rest else (found, old) :: setEntry name tree rest

/-- The entries of a directory; a file has none. -/
def entries : FileTree → List (String × FileTree)
  | file _ => []
  | directory entries => entries

/-- Puts a tree at the end of a path of names, and makes the directories that are missing on the
way. -/
def put (tree : FileTree) : List String → FileTree → FileTree
  | [], _ => tree
  | name :: names, whole =>
    let inner := (child? name whole.entries).getD (.directory [])
    .directory (setEntry name (put tree names inner) whole.entries)

/-- Makes the directory at the end of a path of names, unless it is there. -/
def makeDirectory : List String → FileTree → FileTree
  | [], whole => whole
  | name :: names, whole =>
    let inner := (child? name whole.entries).getD (.directory [])
    .directory (setEntry name (makeDirectory names inner) whole.entries)

/-- The largest number of bytes of a name. -/
def maxNameLength : Nat := 255

/-- The number of bytes that a path must stay below. -/
def pathLimit : Nat := 4096

/-- A tree with the directories that lead to it, the nearest one first. -/
structure Place where
  tree : FileTree
  outer : List FileTree

/-- Follows names from a place. -/
def follow (place : Place) : List String → Except FileFault Place
  | [] => .ok place
  | name :: names =>
    match place.tree with
    | file _ => .error .notDirectory
    | directory entries =>
      if name = ".." then
        match place.outer with
        | [] => follow place names
        | tree :: outer => follow ⟨tree, outer⟩ names
      else if maxNameLength < name.utf8ByteSize then .error .nameTooLong
      else
        match child? name entries with
        | none => .error .missing
        | some tree => follow ⟨tree, place.tree :: place.outer⟩ names

/-- Whether a path leads to a directory by its form: it ends with a slash or a single dot. -/
def wantsDirectory (path : Path) : Bool :=
  match (Path.splitSlashes path.text.toList).getLast? with
  | some piece => Path.isIdle piece
  | none => false

/-- The place that a path leads to in a tree, seen from a working directory. -/
def locate (root : FileTree) (workingDirectory : List String) (path : Path) :
    Except FileFault Place := do
  if path.text.toList.contains '\x00' then throw .nullByte
  if path.text.isEmpty then throw .missing
  if pathLimit ≤ path.text.utf8ByteSize then throw .nameTooLong
  let start : Place := ⟨root, []⟩
  let start ← if path.isAbsolute then pure start else follow start workingDirectory
  let place ← follow start (path.names.map String.ofList)
  match place.tree with
  | directory _ => return place
  | file _ => if wantsDirectory path then throw .notDirectory else return place

/-- The file system of a tree, seen from a working directory. -/
def fileSystem (root : FileTree) (workingDirectory : List String) : FileSystem where
  workingDirectory := ⟨"/" ++ "/".intercalate workingDirectory⟩
  isFile path :=
    match locate root workingDirectory path with
    | .ok ⟨file _, _⟩ => true
    | _ => false
  content path :=
    match locate root workingDirectory path with
    | .ok ⟨file content, _⟩ => .ok content
    | .ok ⟨directory _, _⟩ => .error .isDirectory
    | .error fault => .error fault

end FileTree
end QueryLocator
