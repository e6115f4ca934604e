import QueryLocator.Proofs.ConfigFormats
import QueryLocator.Proofs.ScopeSelection
import QueryLocator.Proofs.TreeLocations

/-! # Which configuration file is found

The search goes through the paths above the start, and through the names in each directory.  So the
nearest directory with a configuration file wins over every other, and in that directory the name that
comes first (`Config.Nearest`).  Only regular files count: a directory with such a name is passed over
(`Config.nearest_file_is_found`).

The paths above a path are read off its text.  As long as the path does not go back up on its way, they
lead to directories that contain the one it leads to, and then so does the file that is found
(`Config.found_file_lies_above`).  A path that enters a directory and leaves it again makes the search
look into that directory too (`Config.found_in_directory_left_again`).
-/
namespace QueryLocator

/-! ## What paths lead to -/

namespace FileTree

variable {root : FileTree} {workingDirectory : List String} {path : Path}

/-- A path leads to a regular file. -/
def LeadsToFile (root : FileTree) (workingDirectory : List String) (path : Path) : Prop :=
  ∃ content outer, locate root workingDirectory path = .ok ⟨.file content, outer⟩

/-- A path leads to a directory. -/
def LeadsToDirectory (root : FileTree) (workingDirectory : List String) (path : Path) : Prop :=
  ∃ entries outer, locate root workingDirectory path = .ok ⟨.directory entries, outer⟩

/-- A path leads nowhere. -/
def LeadsNowhere (root : FileTree) (workingDirectory : List String) (path : Path) : Prop :=
  ∃ fault, locate root workingDirectory path = .error fault

instance : Decidable (root.LeadsToDirectory workingDirectory path) :=
  match h : locate root workingDirectory path with
  | .ok ⟨.directory entries, outer⟩ => isTrue ⟨entries, outer, h⟩
  | .ok ⟨.file _, _⟩ => isFalse fun ⟨_, _, hdirectory⟩ => nomatch h.symm.trans hdirectory
  | .error _ => isFalse fun ⟨_, _, hdirectory⟩ => nomatch h.symm.trans hdirectory

instance : Decidable (root.LeadsNowhere workingDirectory path) :=
  match h : locate root workingDirectory path with
  | .ok _ => isFalse fun ⟨_, hfault⟩ => nomatch h.symm.trans hfault
  | .error fault => isTrue ⟨fault, h⟩

theorem isFile_fileSystem_iff :
    (root.fileSystem workingDirectory).isFile path = true ↔ root.LeadsToFile workingDirectory path := by
  rw [fileSystem, LeadsToFile]
  dsimp only
  rcases locate root workingDirectory path with fault | ⟨_ | _, outer⟩ <;> simp

instance : Decidable (root.LeadsToFile workingDirectory path) :=
  decidable_of_iff _ isFile_fileSystem_iff

theorem LeadsToDirectory.not_leadsToFile (h : root.LeadsToDirectory workingDirectory path) :
    ¬root.LeadsToFile workingDirectory path := by
  obtain ⟨entries, outer, hdirectory⟩ := h
  rintro ⟨content, outer', hfile⟩
  cases hdirectory.symm.trans hfile

theorem LeadsNowhere.not_leadsToFile (h : root.LeadsNowhere workingDirectory path) :
    ¬root.LeadsToFile workingDirectory path := by
  obtain ⟨fault, hfault⟩ := h
  rintro ⟨content, outer, hfile⟩
  cases hfault.symm.trans hfile

end FileTree

namespace Config

open FileTree

variable {files : FileSystem} {start path directory : Path} {name : String}

/-! ## The nearest file -/

/-- The nearest directory with a configuration file, and the preferred name among those of its
configuration files. -/
structure Nearest (files : FileSystem) (start directory : Path) (name : String) : Prop where
  isFile : files.isFile (directory.join name) = true
  nearest : ∃ nearer farther, start.ancestors = nearer ++ directory :: farther ∧
    ∀ other ∈ nearer, ∀ any ∈ fileNames, files.isFile (other.join any) = false
  preferred : ∃ before after, fileNames = before ++ name :: after ∧
    ∀ other ∈ before, files.isFile (directory.join other) = false

theorem fileIn?_eq_some_iff :
    fileIn? files directory = some path ↔
      ∃ name, path = directory.join name ∧ files.isFile (directory.join name) = true ∧
        ∃ before after, fileNames = before ++ name :: after ∧
          ∀ other ∈ before, files.isFile (directory.join other) = false := by
  rw [fileIn?, candidates, List.find?_map, Option.map_eq_some_iff]
  simp only [List.find?_eq_some_iff_append, Function.comp_apply, Bool.not_eq_true']
  constructor
  · rintro ⟨name, ⟨hfile, hpreferred⟩, rfl⟩
    exact ⟨name, rfl, hfile, hpreferred⟩
  · rintro ⟨name, rfl, hfile, hpreferred⟩
    exact ⟨name, ⟨hfile, hpreferred⟩, rfl⟩

theorem fileIn?_eq_none_iff :
    fileIn? files directory = none ↔
      ∀ name ∈ fileNames, files.isFile (directory.join name) = false := by
  simp [fileIn?, candidates, List.find?_map]

/-- What is found is the nearest configuration file. -/
theorem find?_eq_some_iff_nearest :
    find? files start = some path ↔
      ∃ directory name, Nearest files start directory name ∧ path = directory.join name := by
  rw [find?, List.findSome?_eq_some_iff]
  simp only [fileIn?_eq_some_iff, fileIn?_eq_none_iff]
  constructor
  · rintro ⟨nearer, directory, farther, habove, ⟨name, rfl, hfile, hpreferred⟩, hnearer⟩
    exact ⟨directory, name, ⟨hfile, ⟨nearer, farther, habove, hnearer⟩, hpreferred⟩, rfl⟩
  · rintro ⟨directory, name, ⟨hfile, ⟨nearer, farther, habove, hnearer⟩, hpreferred⟩, rfl⟩
    exact ⟨nearer, directory, farther, habove, ⟨name, rfl, hfile, hpreferred⟩, hnearer⟩

/-- Nothing is found exactly when no directory above has a configuration file. -/
theorem find?_eq_none_iff_forall :
    find? files start = none ↔ ∀ directory ∈ start.ancestors, ∀ name ∈ fileNames,
      files.isFile (directory.join name) = false := by
  rw [find?, List.findSome?_eq_none_iff]
  simp only [fileIn?_eq_none_iff]

/-- **The nearest and most preferred configuration file is found**, and none is found exactly when
there is none in the start or above it.  In a tree of files what is found is a regular file and not a
directory, and directories that bear one of the names, like names that nothing bears, do not keep the
search from the candidate behind them. -/
theorem nearest_file_is_found :
    (∀ files start path, find? files start = some path ↔
      ∃ directory name, Nearest files start directory name ∧ path = directory.join name) ∧
    (∀ files start, find? files start = none ↔ ∀ directory ∈ start.ancestors, ∀ name ∈ fileNames,
      files.isFile (directory.join name) = false) ∧
    ∀ (root : FileTree) (workingDirectory : List String) (start path : Path),
      (find? (root.fileSystem workingDirectory) start = some path →
        root.LeadsToFile workingDirectory path ∧ ¬root.LeadsToDirectory workingDirectory path) ∧
      ∀ before after, tried start = before ++ path :: after →
        root.LeadsToFile workingDirectory path →
        (∀ other ∈ before, root.LeadsToDirectory workingDirectory other ∨
          root.LeadsNowhere workingDirectory other) →
        find? (root.fileSystem workingDirectory) start = some path := by
  refine ⟨fun _ _ _ => find?_eq_some_iff_nearest, fun _ _ => find?_eq_none_iff_forall, ?_⟩
  intro root workingDirectory start path
  constructor
  · intro hfind
    obtain ⟨_, _, -, hfile, -⟩ := find?_eq_some_iff.mp hfind
    have hleads := isFile_fileSystem_iff.mp hfile
    exact ⟨hleads, fun hdirectory => hdirectory.not_leadsToFile hleads⟩
  · intro before after htried hleads hbefore
    refine find?_eq_some_iff.mpr ⟨before, after, htried, isFile_fileSystem_iff.mpr hleads, ?_⟩
    intro other hother
    rw [← Bool.not_eq_true, isFile_fileSystem_iff]
    exact (hbefore other hother).elim LeadsToDirectory.not_leadsToFile LeadsNowhere.not_leadsToFile

/-- Directories bear names of configuration files in the start and next to the file that is found; the
latter one is even preferred to it. -/
theorem nearest_file_is_found_past_directories :
    let named : String × FileTree := (".graphqlrc.yml", .directory [])
    let root : FileTree := .directory [("w", .directory [named, (".graphqlrc.yaml", .file ⟨#[]⟩),
      ("s", .directory [named, (".graphqlrc", .directory [named])])])]
    ∃ before after, tried ⟨"s"⟩ = before ++ ⟨".graphqlrc.yaml"⟩ :: after ∧
      ⟨"s/.graphqlrc"⟩ ∈ before ∧ root.LeadsToDirectory ["w"] ⟨"s/.graphqlrc"⟩ ∧
      ⟨".graphqlrc.yml"⟩ ∈ before ∧ root.LeadsToDirectory ["w"] ⟨".graphqlrc.yml"⟩ ∧
      root.LeadsToFile ["w"] ⟨".graphqlrc.yaml"⟩ ∧
      (∀ other ∈ before, root.LeadsToDirectory ["w"] other ∨ root.LeadsNowhere ["w"] other) ∧
      find? (root.fileSystem ["w"]) ⟨"s"⟩ = some ⟨".graphqlrc.yaml"⟩ ∧
      ∃ directory name, Nearest (root.fileSystem ["w"]) ⟨"s"⟩ directory name ∧
        Path.mk ".graphqlrc.yaml" = directory.join name := by
  intro named root
  have htried : tried ⟨"s"⟩ = (tried ⟨"s"⟩).take 8 ++ ⟨".graphqlrc.yaml"⟩ :: (tried ⟨"s"⟩).drop 9 := by
    decide +kernel
  have hfile : root.LeadsToFile ["w"] ⟨".graphqlrc.yaml"⟩ := by decide +kernel
  have hbefore : ∀ other ∈ (tried ⟨"s"⟩).take 8,
      root.LeadsToDirectory ["w"] other ∨ root.LeadsNowhere ["w"] other := by
    decide +kernel
  have hfound := (nearest_file_is_found.2.2 root ["w"] ⟨"s"⟩ _).2 _ _ htried hfile hbefore
  exact ⟨_, _, htried, by decide +kernel, by decide +kernel, by decide +kernel, by decide +kernel,
    hfile, hbefore, hfound, (nearest_file_is_found.1 _ _ _).mp hfound⟩

/-! ## Above the start -/

/-- A file lies in the directory that a path leads to, or in a directory that contains that one. -/
def LiesAbove (workingDirectory : List String) (file start : Path) : Prop :=
  ∃ up name, file.location workingDirectory = up ++ [name] ∧ up <+: start.location workingDirectory

/-- A file in a directory lies above a start exactly when the directory does. -/
theorem liesAbove_join_iff {workingDirectory : List String} (hname : Path.IsName name.toList) :
    LiesAbove workingDirectory (directory.join name) start ↔
      directory.location workingDirectory <+: start.location workingDirectory := by
  rw [LiesAbove, directory.location_join hname]
  constructor
  · rintro ⟨up, last, hlocation, hprefix⟩
    obtain ⟨rfl, -⟩ := List.append_inj' hlocation rfl
    exact hprefix
  · intro hprefix
    exact ⟨_, _, rfl, hprefix⟩

/-- **The file that is found lies above the start as long as the paths above the start do.**  It is in
the directory that one of these paths leads to, and it lies in the start or in a directory that
contains the start exactly when that directory does.  So it does whenever all the paths above the start
lead above it, as they do where the start does not go back up on its way. -/
theorem found_file_lies_above {root : FileTree} {workingDirectory : List String} {start path : Path}
    (hstart : root.LeadsToDirectory workingDirectory start)
    (hfind : find? (root.fileSystem workingDirectory) start = some path) :
    (∃ entries outer, At root (start.location workingDirectory) ⟨.directory entries, outer⟩) ∧
    (∃ content outer, At root (path.location workingDirectory) ⟨.file content, outer⟩) ∧
    (∃ directory ∈ start.ancestors, ∃ name ∈ fileNames, path = directory.join name ∧
      path.location workingDirectory = directory.location workingDirectory ++ [name] ∧
      (LiesAbove workingDirectory path start ↔
        directory.location workingDirectory <+: start.location workingDirectory)) ∧
    ((∀ directory ∈ start.ancestors,
        directory.location workingDirectory <+: start.location workingDirectory) →
      LiesAbove workingDirectory path start) ∧
    (['.', '.'] ∉ start.names → LiesAbove workingDirectory path start) := by
  obtain ⟨entries, outer, hstart⟩ := hstart
  obtain ⟨directory, hdirectory, name, hmem, rfl, hfile⟩ := exists_of_find? hfind
  obtain ⟨content, outer', hpath⟩ := isFile_fileSystem_iff.mp hfile
  have hname := isName_of_mem hmem
  have hlies := @liesAbove_join_iff start directory name workingDirectory hname
  refine ⟨⟨entries, outer, At.of_locate hstart⟩, ⟨content, outer', At.of_locate hpath⟩, ?_, ?_, ?_⟩
  · exact ⟨directory, hdirectory, name, hmem, rfl, directory.location_join hname, hlies⟩
  · intro habove
    exact hlies.mpr (habove directory hdirectory)
  · intro hup
    exact hlies.mpr (Path.location_prefix_of_mem_ancestors hup hdirectory)

/-- A start that is written with dots, and one that enters a directory twice. -/
theorem found_file_lies_above_of_dotted_start :
    let root : FileTree :=
      .directory [("w", .directory [(".graphqlrc.yml", .file ⟨#[]⟩), ("s", .directory [])])]
    (root.LeadsToDirectory ["w"] ⟨"./s//."⟩ ∧
      find? (root.fileSystem ["w"]) ⟨"./s//."⟩ = some ⟨"./.graphqlrc.yml"⟩ ∧
      ['.', '.'] ∉ (Path.mk "./s//.").names ∧
      LiesAbove ["w"] ⟨"./.graphqlrc.yml"⟩ ⟨"./s//."⟩) ∧
    root.LeadsToDirectory ["w"] ⟨"/w/s/../s"⟩ ∧
      find? (root.fileSystem ["w"]) ⟨"/w/s/../s"⟩ = some ⟨"/w/s/../.graphqlrc.yml"⟩ ∧
      (∀ directory ∈ (Path.mk "/w/s/../s").ancestors,
        directory.location ["w"] <+: (Path.mk "/w/s/../s").location ["w"]) ∧
      LiesAbove ["w"] ⟨"/w/s/../.graphqlrc.yml"⟩ ⟨"/w/s/../s"⟩ := by
  intro root
  have hplain : root.LeadsToDirectory ["w"] ⟨"./s//."⟩ := by decide +kernel
  have hfindPlain : find? (root.fileSystem ["w"]) ⟨"./s//."⟩ = some ⟨"./.graphqlrc.yml"⟩ := by
    decide +kernel
  have hup : ['.', '.'] ∉ (Path.mk "./s//.").names := by decide +kernel
  have htwice : root.LeadsToDirectory ["w"] ⟨"/w/s/../s"⟩ := by decide +kernel
  have hfindTwice :
      find? (root.fileSystem ["w"]) ⟨"/w/s/../s"⟩ = some ⟨"/w/s/../.graphqlrc.yml"⟩ := by
    decide +kernel
  have habove : ∀ directory ∈ (Path.mk "/w/s/../s").ancestors,
      directory.location ["w"] <+: (Path.mk "/w/s/../s").location ["w"] := by
    decide +kernel
  exact ⟨⟨hplain, hfindPlain, hup, (found_file_lies_above hplain hfindPlain).2.2.2.2 hup⟩,
    htwice, hfindTwice, habove, (found_file_lies_above htwice hfindTwice).2.2.2.1 habove⟩

/-- A start that enters a directory and leaves it again: the file in that directory is found, although
the directory does not contain the one that the start leads to. -/
theorem found_in_directory_left_again :
    let root : FileTree :=
      .directory [("w", .directory [("a", .directory [(".graphqlrc.yml", .file ⟨#[]⟩)])])]
    root.LeadsToDirectory ["w"] ⟨"a/.."⟩ ∧
      find? (root.fileSystem ["w"]) ⟨"a/.."⟩ = some ⟨"a/.graphqlrc.yml"⟩ ∧
      (Path.mk "a/..").location ["w"] = ["w"] ∧
      (Path.mk "a/.graphqlrc.yml").location ["w"] = ["w", "a", ".graphqlrc.yml"] ∧
      ¬LiesAbove ["w"] ⟨"a/.graphqlrc.yml"⟩ ⟨"a/.."⟩ := by
  intro root
  refine ⟨by decide +kernel, by decide +kernel, by decide +kernel, by decide +kernel, ?_⟩
  have hname : Path.IsName ".graphqlrc.yml".toList := by decide
  have hlies := @liesAbove_join_iff ⟨"a/.."⟩ ⟨"a"⟩ _ ["w"] hname
  rw [show (Path.mk "a").join ".graphqlrc.yml" = ⟨"a/.graphqlrc.yml"⟩ by decide +kernel] at hlies
  rw [hlies]
  decide +kernel

end Config
end QueryLocator
