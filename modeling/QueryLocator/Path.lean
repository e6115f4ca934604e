/-! # Paths of files

A path is kept as it was written.  Its names are separated by slashes; empty names and single dots
between them count for nothing, but they are kept as well.  A path that begins with a slash is
absolute, and a single dot at the very beginning stands for the directory that a relative path
begins in.
-/
namespace QueryLocator

/-- A path. -/
structure Path where
  text : String
  deriving DecidableEq, Repr

namespace Path

/-- The pieces of a text between slashes. -/
def splitSlashes : List Char → List (List Char)
  | [] => [[]]
  | c :: rest =>
    if c = '/' then [] :: splitSlashes rest
    else
      match splitSlashes rest with
      | [] => [[c]]
      | piece :: pieces => (c :: piece) :: pieces

/-- Pieces with slashes between them. -/
def joinSlashes : List (List Char) → List Char
  | [] => []
  | [piece] => piece
  | piece :: pieces => piece ++ '/' :: joinSlashes pieces

theorem splitSlashes_ne_nil (text : List Char) : splitSlashes text ≠ [] := by
  cases text with
  | nil => simp [splitSlashes]
  | cons c rest =>
    simp only [splitSlashes]
    split
    · simp
    · split <;> simp

theorem joinSlashes_cons_cons (piece next : List Char) (pieces : List (List Char)) :
    joinSlashes (piece :: next :: pieces) = piece ++ '/' :: joinSlashes (next :: pieces) := rfl

/-- Nothing is lost by splitting. -/
theorem joinSlashes_splitSlashes (text : List Char) : joinSlashes (splitSlashes text) = text := by
  induction text with
  | nil => rfl
  | cons c rest ih =>
    simp only [splitSlashes]
    split
    next hslash =>
      cases h : splitSlashes rest with
      | nil => exact absurd h (splitSlashes_ne_nil rest)
      | cons piece pieces =>
        rw [joinSlashes_cons_cons, ← h, ih, hslash]
        rfl
    next =>
      cases h : splitSlashes rest with
      | nil => exact absurd h (splitSlashes_ne_nil rest)
      | cons piece pieces =>
        rw [h] at ih
        rw [← ih]
        cases pieces <;> rfl

/-- Whether a piece counts for nothing. -/
def isIdle (piece : List Char) : Bool :=
  piece == [] || piece == ['.']

/-- Whether a path is absolute. -/
def isAbsolute (path : Path) : Bool :=
  path.text.toList.head? == some '/'

/-- What stands in front of the pieces: a slash, a single dot, or nothing. -/
def lead (path : Path) : List Char :=
  match path.text.toList with
  | '/' :: _ => ['/']
  | ['.'] => ['.']
  | '.' :: '/' :: _ => ['.']
  | _ => []

/-- The pieces of a path behind what stands in front of them. -/
def pieces (path : Path) : List (List Char) :=
  splitSlashes (path.text.toList.drop path.lead.length)

/-- The names of a path, in order. -/
def names (path : Path) : List (List Char) :=
  path.pieces.filter fun piece => !isIdle piece

/-- The name of the file that a path leads to.  A path that ends with two dots has none. -/
def fileName? (path : Path) : Option (List Char) :=
  match path.names.getLast? with
  | some name => if name = ['.', '.'] then none else some name
  | none => none

/-- What comes after the last dot of a name, unless that dot is the first character. -/
def extensionOf (name : List Char) : List Char :=
  let reversed := name.reverse
  let ending := reversed.takeWhile (· ≠ '.')
  if ending.length + 1 < name.length then ending.reverse else []

/-- The extension of a path; nothing if there is none. -/
def extension (path : Path) : List Char :=
  (path.fileName?.map extensionOf).getD []

/-- The paths of the directories above, the nearest one first, for what stands in front and the pieces
in reverse order.  Above a relative path is also the directory that it begins in, whose path is
empty. -/
def above (lead : List Char) : List (List Char) → List Path
  | [] => if lead = ['.'] then [⟨""⟩] else []
  | piece :: outer =>
    if isIdle piece then above lead outer
    else
      ⟨String.ofList (lead ++ joinSlashes (outer.dropWhile isIdle).reverse)⟩ :: above lead outer

/-- A path and the paths above it, as its text shows them. -/
def ancestors (path : Path) : List Path :=
  path :: above path.lead path.pieces.reverse

/-- The path of a file in a directory. -/
def join (directory : Path) (name : String) : Path :=
  if directory.text.isEmpty then ⟨name⟩
  else if directory.text.toList.getLast? = some '/' then ⟨directory.text ++ name⟩
  else ⟨directory.text ++ "/" ++ name⟩

/-- A hidden file has no extension, and dots in directory names do not matter. -/
example : extension ⟨"a.b/.graphqlrc"⟩ = [] ∧ extension ⟨"x.json.yml/."⟩ = ['y', 'm', 'l'] := by
  decide +kernel

/-- Two dots are names like any other. -/
example : (ancestors ⟨"a/../b/"⟩).map Path.text = ["a/../b/", "a/..", "a", ""] := by
  decide +kernel

end Path
end QueryLocator
