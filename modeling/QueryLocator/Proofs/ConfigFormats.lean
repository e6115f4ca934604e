import QueryLocator.Config.Search
import QueryLocator.Proofs.ConfigLoading
import QueryLocator.Proofs.PathNames

/-! # Every configuration file that is found has a format

The names that are searched for and the formats that names stand for are two lists of their own.
They agree: a file that the search finds is named by one of the names, whatever directory it is in
(`Path.fileName?_join`), and each of the names stands for a format (`Config.configFormat?_of_mem`).
So what is found may turn out unreadable or invalid, but never of an unknown format
(`Config.found_has_format`).
-/
namespace QueryLocator

namespace Config

variable {files : FileSystem} {path : Path} {name : String}

theorem isName_of_mem (h : name ∈ fileNames) : Path.IsName name.toList := by
  have hall : ∀ name ∈ fileNames, Path.IsName name.toList := by decide
  exact hall name h

/-- What the search finds is a file with one of the names, in one of the directories. -/
theorem exists_of_find? {start : Path} (h : find? files start = some path) :
    ∃ directory ∈ start.ancestors, ∃ name ∈ fileNames,
      path = directory.join name ∧ files.isFile path = true := by
  obtain ⟨directory, hdirectory, hfile⟩ := List.exists_of_findSome?_eq_some h
  obtain ⟨name, hname, hjoin⟩ := List.mem_map.mp (List.mem_of_find?_eq_some hfile)
  exact ⟨directory, hdirectory, name, hname, hjoin.symm, List.find?_some hfile⟩

/-- The format that a name ends in; a name without an ending leaves both formats open. -/
def formatOf (name : String) : ConfigFormat :=
  if ".json".toList <:+ name.toList then .json
  else if ".yml".toList <:+ name.toList ∨ ".yaml".toList <:+ name.toList then .yaml
  else .yamlOrJson

/-- **Each of the names stands for a format**, in whatever directory the file is. -/
theorem configFormat?_of_mem (hmem : name ∈ fileNames) (hname : path.fileName? = some name.toList) :
    path.configFormat? = some (formatOf name) := by
  simp only [fileNames, List.mem_cons, List.not_mem_nil, or_false] at hmem
  rcases hmem with rfl | rfl | rfl | rfl | rfl | rfl | rfl
  all_goals
    rw [Path.configFormat?, Path.extension, hname]
    rfl

/-- What loading can end in for a file whose name stands for a format. -/
theorem load_of_configFormat? {format : ConfigFormat} (hformat : path.configFormat? = some format) :
    (∃ fault, files.readText path = .error fault ∧ load files path = .error (.file fault)) ∨
      ∃ text, files.readText path = .ok text ∧
        ((∃ config, load files path = .ok config) ∨
          ∃ problem, load files path = .error (.invalid path problem)) := by
  unfold load
  cases files.readText path with
  | error fault => exact Or.inl ⟨fault, rfl, rfl⟩
  | ok text =>
    refine Or.inr ⟨text, rfl, ?_⟩
    dsimp only
    cases hread : read path text with
    | ok config => exact Or.inl ⟨config, rfl⟩
    | error failure =>
      cases read_eq_error_iff.mp hread with
      | unsupported hnone => cases hnone.symm.trans hformat
      | undecodable | unusable => exact Or.inr ⟨_, rfl⟩

/-- Reads the text of a file by a decoder. -/
def readBy (decoder : String → Except ConfigProblem Config) (path : Path) (text : String) :
    Except ConfigFailure Config :=
  ((decoder text).bind check).mapError (.invalid path)

theorem read_of_configFormat? {format : ConfigFormat} (hformat : path.configFormat? = some format) :
    read path = readBy (ofText format) path := by
  funext text
  rw [read, hformat, readBy]

/-- **What the search finds has a format.**  Loading it gives a configuration, or its text cannot be
read, or its text is refused; it is never refused for its name.  Conversely, each of the names that
are searched for selects its decoder in whatever directory the file is: YAML for `yml` and `yaml`,
JSON for `json`, and YAML with JSON to fall back on for the name without an ending. -/
theorem found_has_format :
    (∀ files start path, find? files start = some path →
      (∃ fault, files.readText path = .error fault ∧ load files path = .error (.file fault)) ∨
        ∃ text, files.readText path = .ok text ∧
          ((∃ config, load files path = .ok config) ∨
            ∃ problem, load files path = .error (.invalid path problem))) ∧
    ∀ (path : Path) (name : String), name ∈ fileNames → path.fileName? = some name.toList →
      (".yml".toList <:+ name.toList ∨ ".yaml".toList <:+ name.toList →
        path.configFormat? = some .yaml ∧ read path = readBy ofYaml path) ∧
      (".json".toList <:+ name.toList →
        path.configFormat? = some .json ∧ read path = readBy ofJson path) ∧
      (name = ".graphqlrc" → path.configFormat? = some .yamlOrJson ∧
        read path = readBy (fun text => (ofYaml text).tryCatch fun _ => ofJson text) path) := by
  constructor
  · intro files start path hfind
    obtain ⟨directory, -, name, hmem, rfl, -⟩ := exists_of_find? hfind
    exact load_of_configFormat?
      (configFormat?_of_mem hmem (directory.fileName?_join (isName_of_mem hmem)))
  · intro path name hmem hname
    have hformat := configFormat?_of_mem hmem hname
    have hread := read_of_configFormat? hformat
    have hyaml : ∀ name ∈ fileNames, ".yml".toList <:+ name.toList ∨ ".yaml".toList <:+ name.toList →
        formatOf name = .yaml := by decide
    have hjson : ∀ name ∈ fileNames, ".json".toList <:+ name.toList → formatOf name = .json := by
      decide
    refine ⟨fun hending => ?_, fun hending => ?_, ?_⟩
    · rw [hyaml name hmem hending] at hformat hread
      exact ⟨hformat, hread⟩
    · rw [hjson name hmem hending] at hformat hread
      exact ⟨hformat, hread⟩
    · rintro rfl
      refine ⟨hformat, hread.trans ?_⟩
      funext text
      have hboth : ofText (formatOf ".graphqlrc") text =
          (ofYaml text).tryCatch fun _ => ofJson text := by
        have hformat : formatOf ".graphqlrc" = .yamlOrJson := by decide
        rw [hformat, ofText]
        cases ofYaml text <;> rfl
      rw [readBy, readBy, hboth]

/-- Below directories whose names look like those of other files, a file without an ending is found
whose bytes are no text. -/
theorem found_has_format_below_dotted_directories :
    let files : FileSystem :=
      .ofObservations ⟨"/w"⟩ [⟨⟨"./a.toml/.graphqlrc"⟩, true, .ok ⟨#[0xFF]⟩⟩]
    find? files ⟨"./a.toml/b.json/.."⟩ = some ⟨"./a.toml/.graphqlrc"⟩ ∧
      load files ⟨"./a.toml/.graphqlrc"⟩ = .error (.file .notText) ∧
      ".graphqlrc" ∈ fileNames ∧
      (Path.mk "./a.toml/.graphqlrc").fileName? = some ".graphqlrc".toList ∧
      (Path.mk "./a.toml/.graphqlrc").configFormat? = some .yamlOrJson := by
  intro files
  have hfind : find? files ⟨"./a.toml/b.json/.."⟩ = some ⟨"./a.toml/.graphqlrc"⟩ := by
    decide +kernel
  have htext : files.readText ⟨"./a.toml/.graphqlrc"⟩ = .error .notText := rfl
  have hname : (Path.mk "./a.toml/.graphqlrc").fileName? = some ".graphqlrc".toList := by
    decide +kernel
  refine ⟨hfind, ?_, by decide, hname, ((found_has_format.2 _ _ (by decide) hname).2.2 rfl).1⟩
  rcases found_has_format.1 files _ _ hfind with ⟨fault, hfault, hload⟩ | ⟨text, hok, -⟩
  · obtain rfl := Except.error.inj (htext.symm.trans hfault)
    exact hload
  · cases htext.symm.trans hok

end Config
end QueryLocator
