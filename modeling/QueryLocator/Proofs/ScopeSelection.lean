import QueryLocator.Console.Run
import QueryLocator.Proofs.ConfigData
import QueryLocator.Proofs.ConfigLoading

/-! # Which scope is used

The scope of the explorer comes from the configuration in use, or it is the default one where there is
no configuration at all and no project was requested.  Both ways are spelled out stage by stage
(`Invocation.Grants`), and so is everything that can go wrong (`Invocation.Refuses`); the console
takes a scope in the first cases and gives up in the others, so that no stage falls back silently.
-/
namespace QueryLocator

/-! ## Stages -/

namespace Config

variable {files : FileSystem} {path : Path} {config : Config}

/-- What the search for a configuration tries from a directory on, in order. -/
def tried (start : Path) : List Path :=
  start.ancestors.flatMap candidates

/-- The search finds the first of the files that it tries. -/
def Finds (files : FileSystem) (start path : Path) : Prop :=
  ∃ before after, tried start = before ++ path :: after ∧ files.isFile path = true ∧
    ∀ other ∈ before, files.isFile other = false

theorem find?_eq_find?_tried (files : FileSystem) (start : Path) :
    find? files start = (tried start).find? files.isFile :=
  List.find?_flatMap.symm

theorem find?_eq_some_iff {start : Path} :
    find? files start = some path ↔ Finds files start path := by
  rw [find?_eq_find?_tried, List.find?_eq_some_iff_append, Finds]
  constructor
  · rintro ⟨hfile, before, after, htried, hbefore⟩
    exact ⟨before, after, htried, hfile, by simpa using hbefore⟩
  · rintro ⟨before, after, htried, hfile, hbefore⟩
    exact ⟨hfile, before, after, htried, by simpa using hbefore⟩

theorem find?_eq_none_iff {start : Path} :
    find? files start = none ↔ ∀ path ∈ tried start, files.isFile path = false := by
  rw [find?_eq_find?_tried, List.find?_eq_none]
  simp

/-- A configuration that loads from a file: the text of the file can be read, the name of the file
stands for a format, the text is the configuration in that format, and all its projects are
usable. -/
def Loads (files : FileSystem) (path : Path) (config : Config) : Prop :=
  ∃ text format, files.readText path = .ok text ∧ path.configFormat? = some format ∧
    ofText format text = .ok config ∧ ∀ entry ∈ config.projects, entry.2.Usable

theorem load_eq_ok_iff : load files path = .ok config ↔ Loads files path config := by
  unfold load Loads
  cases files.readText path with
  | error fault => simp
  | ok text => simp [read_eq_ok_iff]

/-- The reasons for which a file does not load. -/
inductive RefusesFile (files : FileSystem) (path : Path) : ConfigFailure → Prop where
  | unreadable {fault : FileFault} (htext : files.readText path = .error fault) :
      RefusesFile files path (.file fault)
  | refused {text : String} {failure : ConfigFailure} (htext : files.readText path = .ok text)
      (hrefused : RefusesText path text failure) : RefusesFile files path failure

theorem load_eq_error_iff {failure : ConfigFailure} :
    load files path = .error failure ↔ RefusesFile files path failure := by
  unfold load
  constructor
  · intro h
    split at h
    next text htext => exact .refused htext (read_eq_error_iff.mp h)
    next fault hfault =>
      obtain rfl := Except.error.inj h
      exact .unreadable hfault
  · rintro (hfault | ⟨htext, hrefused⟩)
    · rw [hfault]
    · rw [htext]
      exact read_eq_error_iff.mpr hrefused

/-- The project that is selected: the one with the requested name, or the first one where none is
requested. -/
inductive Selects (config : Config) : Option String → Project → Prop where
  | named {name : String} {project : Project} (hmem : (name, project) ∈ config.projects) :
      Selects config (some name) project
  | first {name : String} {project : Project} {others : List (String × Project)}
      (hfirst : config.projects = (name, project) :: others) : Selects config none project

theorem Selects.mem_projects {request : Option String} {project : Project}
    (h : config.Selects request project) : ∃ name, (name, project) ∈ config.projects := by
  rcases h with hmem | hfirst
  · exact ⟨_, hmem⟩
  · exact ⟨_, hfirst ▸ List.mem_cons_self ..⟩

theorem projects_sorted (config : Config) : config.projects.Pairwise fun a b => a.1 < b.1 := by
  cases config with
  | single project => exact List.pairwise_singleton ..
  | multi projects => exact projects.sorted

theorem select?_eq_some_iff {request : Option String} {project : Project} :
    (∃ name, config.select? request = some (name, project)) ↔ config.Selects request project := by
  cases request with
  | none =>
    simp only [select?, List.head?_eq_some_iff]
    constructor
    · rintro ⟨name, others, hfirst⟩
      exact .first hfirst
    · rintro (_ | hfirst)
      exact ⟨_, _, hfirst⟩
  | some requested =>
    have hfind := @Dictionary.find?_name_eq_some_iff _ _ config.projects_sorted requested
    constructor
    · rintro ⟨name, hfound⟩
      obtain ⟨hmem, rfl⟩ := hfind.mp hfound
      exact .named hmem
    · rintro (hmem | _)
      exact ⟨requested, hfind.mpr ⟨hmem, rfl⟩⟩

/-- No project is selected if none has the requested name, or if there is none to begin with. -/
theorem select?_eq_none_iff {request : Option String} :
    config.select? request = none ↔
      (∃ name, request = some name ∧ ∀ entry ∈ config.projects, entry.1 ≠ name) ∨
        request = none ∧ config.projects = [] := by
  cases request with
  | none => simp [select?]
  | some name => simp [select?]

end Config

/-! ## Outcomes -/

namespace Console.Invocation

variable {invocation : Invocation} {files : FileSystem}

/-- The configuration file in use: the given one, or the one that the search finds. -/
inductive Uses (invocation : Invocation) (files : FileSystem) : Path → Prop where
  | given {path : Path} (hgiven : invocation.config = some path) : Uses invocation files path
  | found {path : Path} (hgiven : invocation.config = none)
      (hfinds : Config.Finds files files.workingDirectory path) : Uses invocation files path

/-- No configuration file is in use: none is given, and the search finds none. -/
def UsesNone (invocation : Invocation) (files : FileSystem) : Prop :=
  invocation.config = none ∧
    ∀ path ∈ Config.tried files.workingDirectory, files.isFile path = false

theorem configPath?_eq_some_iff {path : Path} :
    invocation.configPath? files = some path ↔ invocation.Uses files path := by
  unfold configPath?
  constructor
  · intro h
    split at h
    next given hgiven => exact .given (hgiven.trans h)
    next hgiven => exact .found hgiven (Config.find?_eq_some_iff.mp h)
  · rintro (hgiven | ⟨hgiven, hfinds⟩)
    · rw [hgiven]
    · rw [hgiven]
      exact Config.find?_eq_some_iff.mpr hfinds

theorem configPath?_eq_none_iff :
    invocation.configPath? files = none ↔ invocation.UsesNone files := by
  unfold configPath? UsesNone
  cases invocation.config with
  | none => simp [Config.find?_eq_none_iff]
  | some path => simp

/-- The ways to a scope. -/
inductive Grants (invocation : Invocation) (files : FileSystem) : String → Prop where
  /-- The root selector of the project that is selected in the configuration in use. -/
  | configured {path : Path} {config : Config} {project : Project}
      (huses : invocation.Uses files path) (hloads : Config.Loads files path config)
      (hselects : config.Selects invocation.project project) :
      Grants invocation files project.explorer.rootSelector
  /-- The default one, if there is no configuration and no project is requested. -/
  | unconfigured (hnone : invocation.UsesNone files) (hrequest : invocation.project = none) :
      Grants invocation files Namespace.defaultRoot

/-- Everything that can go wrong on the way to a scope. -/
inductive Refuses (invocation : Invocation) (files : FileSystem) : Failure → Prop where
  | file {path : Path} {failure : ConfigFailure} (huses : invocation.Uses files path)
      (hrefuses : Config.RefusesFile files path failure) :
      Refuses invocation files (.config path failure)
  | unknownProject {path : Path} {config : Config} {name : String}
      (huses : invocation.Uses files path) (hloads : Config.Loads files path config)
      (hrequest : invocation.project = some name)
      (hunknown : ∀ entry ∈ config.projects, entry.1 ≠ name) :
      Refuses invocation files (.unknownProject name)
  /-- There may be no project at all among named projects. -/
  | noProject {path : Path} {config : Config} (huses : invocation.Uses files path)
      (hloads : Config.Loads files path config) (hrequest : invocation.project = none)
      (hempty : config.projects = []) :
      Refuses invocation files (.unknownProject Config.defaultName)
  | noConfig {name : String} (hnone : invocation.UsesNone files)
      (hrequest : invocation.project = some name) :
      Refuses invocation files (.projectWithoutConfig name)

/-- The scope is settled by the configuration file in use. -/
theorem scope_of_uses {path : Path} (h : invocation.Uses files path) :
    invocation.scope files =
      match Config.load files path with
      | .error failure => .error (.config path failure)
      | .ok config =>
        match config.select? invocation.project with
        | some (_, project) => .ok project.explorer.scope
        | none => .error (.unknownProject (invocation.project.getD Config.defaultName)) := by
  have hpath := configPath?_eq_some_iff.mpr h
  unfold scope
  split
  next hnone => cases hnone.symm.trans hpath
  next found hfound =>
    obtain rfl := Option.some.inj (hfound.symm.trans hpath)
    rfl

theorem scope_of_usesNone (h : invocation.UsesNone files) :
    invocation.scope files =
      match invocation.project with
      | some project => .error (.projectWithoutConfig project)
      | none => .ok default := by
  have hpath := configPath?_eq_none_iff.mpr h
  unfold scope
  split
  next => rfl
  next found hfound => cases hfound.symm.trans hpath

theorem uses_or_usesNone (invocation : Invocation) (files : FileSystem) :
    (∃ path, invocation.Uses files path) ∨ invocation.UsesNone files := by
  cases h : invocation.configPath? files with
  | none => exact Or.inr (configPath?_eq_none_iff.mp h)
  | some path => exact Or.inl ⟨path, configPath?_eq_some_iff.mp h⟩

/-- A scope that is granted is taken. -/
theorem scope_of_grants {root : String} (h : invocation.Grants files root) :
    invocation.scope files = .ok ⟨root⟩ := by
  cases h with
  | configured huses hloads hselects =>
    obtain ⟨name, hselect⟩ := Config.select?_eq_some_iff.mpr hselects
    rw [scope_of_uses huses, Config.load_eq_ok_iff.mpr hloads]
    dsimp only
    rw [hselect]
    rfl
  | unconfigured hnone hrequest =>
    rw [scope_of_usesNone hnone, hrequest]
    rfl

/-- The console gives up where something goes wrong. -/
theorem scope_of_refuses {failure : Failure} (h : invocation.Refuses files failure) :
    invocation.scope files = .error failure := by
  cases h with
  | file huses hrefuses => rw [scope_of_uses huses, Config.load_eq_error_iff.mpr hrefuses]
  | unknownProject huses hloads hrequest hunknown =>
    have hselect := Config.select?_eq_none_iff.mpr (Or.inl ⟨_, hrequest, hunknown⟩)
    rw [scope_of_uses huses, Config.load_eq_ok_iff.mpr hloads]
    dsimp only
    rw [hselect, hrequest]
    rfl
  | noProject huses hloads hrequest hempty =>
    have hselect := Config.select?_eq_none_iff.mpr (Or.inr ⟨hrequest, hempty⟩)
    rw [scope_of_uses huses, Config.load_eq_ok_iff.mpr hloads]
    dsimp only
    rw [hselect, hrequest]
    rfl
  | noConfig hnone hrequest => rw [scope_of_usesNone hnone, hrequest]

/-- **Either a scope is granted or something goes wrong.** -/
theorem grants_or_refuses (invocation : Invocation) (files : FileSystem) :
    (∃ root, invocation.Grants files root) ∨ ∃ failure, invocation.Refuses files failure := by
  rcases invocation.uses_or_usesNone files with ⟨path, huses⟩ | hnone
  · cases hload : Config.load files path with
    | error failure => exact Or.inr ⟨_, .file huses (Config.load_eq_error_iff.mp hload)⟩
    | ok config =>
      have hloads := Config.load_eq_ok_iff.mp hload
      cases hselect : config.select? invocation.project with
      | some entry =>
        exact Or.inl ⟨_, .configured huses hloads (Config.select?_eq_some_iff.mp ⟨entry.1, hselect⟩)⟩
      | none =>
        rcases Config.select?_eq_none_iff.mp hselect with
          ⟨name, hrequest, hunknown⟩ | ⟨hrequest, hempty⟩
        · exact Or.inr ⟨_, .unknownProject huses hloads hrequest hunknown⟩
        · exact Or.inr ⟨_, .noProject huses hloads hrequest hempty⟩
  · cases hrequest : invocation.project with
    | none => exact Or.inl ⟨_, .unconfigured hnone hrequest⟩
    | some name => exact Or.inr ⟨_, .noConfig hnone hrequest⟩

/-- A root selector that is granted is not blank. -/
theorem not_blank_of_grants {root : String} (h : invocation.Grants files root) :
    ∃ c ∈ root.toList, Text.isBlankChar c = false := by
  cases h with
  | configured huses hloads hselects =>
    obtain ⟨text, format, -, -, -, husable⟩ := hloads
    obtain ⟨name, hmem⟩ := hselects.mem_projects
    exact (husable _ hmem).root
  | unconfigured => exact Text.isBlank_eq_false_iff.mp (by decide)

/-- **The console takes a scope exactly where it is granted, and gives up exactly where something goes
wrong.** -/
theorem scope_settled (invocation : Invocation) (files : FileSystem) :
    (∀ root, invocation.scope files = .ok ⟨root⟩ ↔ invocation.Grants files root) ∧
    (∀ failure, invocation.scope files = .error failure ↔ invocation.Refuses files failure) ∧
    ((¬∃ root, invocation.Grants files root) → ∃ failure, invocation.scope files = .error failure) ∧
    ∀ root, invocation.scope files = .ok ⟨root⟩ → ∃ c ∈ root.toList, Text.isBlankChar c = false := by
  -- a way to a scope and a failure exclude each other, and there always is one of them
  have hgrants (root : String) :
      invocation.scope files = .ok ⟨root⟩ ↔ invocation.Grants files root := by
    refine ⟨fun h => ?_, scope_of_grants⟩
    rcases invocation.grants_or_refuses files with ⟨granted, hgranted⟩ | ⟨failure, hrefused⟩
    · obtain rfl : root = granted := by simpa [h] using scope_of_grants hgranted
      exact hgranted
    · simpa [h] using scope_of_refuses hrefused
  have hrefuses (failure : Failure) :
      invocation.scope files = .error failure ↔ invocation.Refuses files failure := by
    refine ⟨fun h => ?_, scope_of_refuses⟩
    rcases invocation.grants_or_refuses files with ⟨root, hgranted⟩ | ⟨found, hrefused⟩
    · simpa [h] using scope_of_grants hgranted
    · obtain rfl : failure = found := by simpa [h] using scope_of_refuses hrefused
      exact hrefused
  refine ⟨hgrants, hrefuses, fun hnone => ?_, fun root h => not_blank_of_grants ((hgrants root).mp h)⟩
  obtain ⟨failure, hrefused⟩ := (invocation.grants_or_refuses files).resolve_left hnone
  exact ⟨failure, scope_of_refuses hrefused⟩

/-- The configuration in the directory above is used.  Its only project goes by the name `default`,
and a request for another project is refused. -/
theorem scope_settled_above :
    let files : FileSystem := .ofObservations ⟨"/a/b"⟩ [⟨⟨"/a/.graphqlrc.json"⟩, true,
      .ok "\x7b\"schema\": \"s\", \"explorer\": \x7b\"rootSelector\": \".x\"\x7d\x7d".toUTF8⟩]
    let invocation (project : String) : Invocation := ⟨none, some project, ⟨"q"⟩, .outline, .json⟩
    (invocation "default").Grants files ".x" ∧ (∃ c ∈ ".x".toList, Text.isBlankChar c = false) ∧
      ∃ failure, (invocation "other").Refuses files failure := by
  intro files invocation
  have hscope : (invocation "default").scope files = .ok ⟨".x"⟩ :=
    toOption_eq_some_iff.mp (by decide +kernel)
  have hother : ((invocation "other").scope files).toOption = none := by decide +kernel
  obtain ⟨hgrants, -, -, hink⟩ := scope_settled (invocation "default") files
  obtain ⟨-, hrefuses, -, -⟩ := scope_settled (invocation "other") files
  refine ⟨(hgrants _).mp hscope, hink _ hscope, ?_⟩
  cases hfailure : (invocation "other").scope files with
  | ok scope => simp [hfailure, Except.toOption] at hother
  | error failure => exact ⟨failure, (hrefuses failure).mp hfailure⟩

end Console.Invocation
end QueryLocator
