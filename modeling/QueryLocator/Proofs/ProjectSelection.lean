import QueryLocator.Proofs.ConsoleReports
import QueryLocator.Proofs.ScopeSelection

/-! # Working without the name of a project

Where no project is requested, the first one of the configuration is worked with.  A configuration
that was accepted has a project for this, unless it is the one whose map of named projects is empty:
the checks go through the projects one by one, and there they find none to refuse.  The console then
says that there is no project by the name that a single project goes by.
-/
namespace QueryLocator

namespace Config

variable {path : Path} {text : String} {config : Config}

/-- A configuration has projects unless its map of named projects is empty. -/
theorem projects_eq_nil_iff : config.projects = [] ↔ config = .multi .empty := by
  cases config with
  | single project => simp [projects]
  | multi projects =>
    obtain ⟨entries, hsorted⟩ := projects
    simp [Config.projects, Dictionary.empty]

/-- Where no project is requested, any project at all is enough for one to be selected. -/
theorem exists_selects_none (h : config.projects ≠ []) :
    ∃ name project, (name, project) ∈ config.projects ∧
      config.select? none = some (name, project) ∧ config.Selects none project := by
  obtain ⟨⟨name, project⟩, others, hprojects⟩ := List.exists_cons_of_ne_nil h
  have hselect : config.select? none = some (name, project) := by
    rw [select?, hprojects, List.head?_cons]
  exact ⟨name, project, hprojects ▸ List.mem_cons_self .., hselect, .first hprojects⟩

/-- A file with a text that is accepted loads. -/
theorem loads_of_read {files : FileSystem} (h : read path text = .ok config)
    (htext : files.readText path = .ok text) : Loads files path config := by
  obtain ⟨format, hformat, hdecoded, husable⟩ := read_eq_ok_iff.mp h
  exact ⟨text, format, htext, hformat, hdecoded, husable⟩

end Config

namespace Console.Invocation

/-- A configuration that names no project at all is accepted, and no project can be selected. -/
theorem accepted_without_project :
    let path : Path := ⟨"graphql.config.json"⟩
    let text := "\x7b\"projects\":\x7b\x7d\x7d"
    let files : FileSystem := .ofObservations ⟨"/w"⟩ [⟨path, true, .ok text.toUTF8⟩]
    let invocation : Invocation := ⟨some path, none, ⟨"q"⟩, .outline, .json⟩
    ∃ config, Config.read path text = .ok config ∧ config.projects = [] ∧
      config.select? none = none ∧
      invocation.scope files = .error (.unknownProject Config.defaultName) := by
  intro path text files invocation
  have hread : (Config.read path text).toOption.map (fun config => config.projects.isEmpty) =
      some true := by
    decide +kernel
  obtain ⟨config, hconfig, hempty⟩ := Option.map_eq_some_iff.mp hread
  have haccepted := toOption_eq_some_iff.mp hconfig
  have hprojects := List.isEmpty_iff.mp hempty
  have htext : files.readText path = .ok text := FileSystem.readText_eq_ok_iff.mpr rfl
  exact ⟨config, haccepted, hprojects, Config.select?_eq_none_iff.mpr (Or.inr ⟨rfl, hprojects⟩),
    scope_of_refuses (.noProject (.given rfl) (Config.loads_of_read haccepted htext) rfl hprojects)⟩

/-- **An accepted configuration has a project to work with, unless its map of named projects is
empty.**  Without a request the console then takes the scope of that project wherever the
configuration is in use; where there is no project, it says so. -/
theorem accepted_config_grants {path : Path} {text : String} {config : Config}
    (h : Config.read path text = .ok config) :
    (config.projects = [] ↔ config = .multi .empty) ∧
    (config ≠ .multi .empty → ∃ name project, (name, project) ∈ config.projects ∧
      config.select? none = some (name, project) ∧
      ∀ (files : FileSystem) (invocation : Invocation), invocation.project = none →
        invocation.Uses files path → files.readText path = .ok text →
          invocation.scope files = .ok project.explorer.scope) ∧
    (config = .multi .empty → config.select? none = none ∧
      (Failure.unknownProject Config.defaultName).headline = "Project 'default' not found" ∧
      ∀ (files : FileSystem) (invocation : Invocation), invocation.project = none →
        invocation.Uses files path → files.readText path = .ok text →
          invocation.scope files = .error (.unknownProject Config.defaultName)) := by
  refine ⟨Config.projects_eq_nil_iff, fun hsome => ?_, fun hnone => ?_⟩
  · obtain ⟨name, project, hmem, hselect, hselects⟩ :=
      Config.exists_selects_none (mt Config.projects_eq_nil_iff.mp hsome)
    refine ⟨name, project, hmem, hselect, fun files invocation hrequest huses htext => ?_⟩
    exact scope_of_grants (.configured huses (Config.loads_of_read h htext) (hrequest ▸ hselects))
  · have hempty := Config.projects_eq_nil_iff.mpr hnone
    refine ⟨Config.select?_eq_none_iff.mpr (Or.inr ⟨rfl, hempty⟩), by decide, ?_⟩
    intro files invocation hrequest huses htext
    exact scope_of_refuses (.noProject huses (Config.loads_of_read h htext) hrequest hempty)

/-- Two files: the first of two named projects is worked with, and among no named projects there is
none. -/
theorem accepted_config_grants_first :
    let path : Path := ⟨"graphql.config.json"⟩
    let named := "\x7b\"projects\": \x7b\"b\": \x7b\"schema\": \"s\"\x7d, " ++
      "\"a\": \x7b\"schema\": \"s\", \"explorer\": \x7b\"rootSelector\": \".a\"\x7d\x7d\x7d\x7d"
    let empty := "\x7b\"projects\": \x7b\x7d\x7d"
    let files (text : String) : FileSystem :=
      .ofObservations ⟨"/w"⟩ [⟨path, true, .ok text.toUTF8⟩]
    let invocation : Invocation := ⟨some path, none, ⟨"q"⟩, .outline, .json⟩
    (∃ config, Config.read path named = .ok config ∧ config ≠ .multi .empty ∧
      invocation.scope (files named) = .ok ⟨".a"⟩) ∧
    ∃ config, Config.read path empty = .ok config ∧ config = .multi .empty ∧
      invocation.scope (files empty) = .error (.unknownProject "default") := by
  intro path named empty files invocation
  have hnamed : (Config.read path named).toOption.bind (fun config =>
      (config.select? none).map fun entry => entry.2.explorer) = some ⟨".a"⟩ := by
    decide +kernel
  have hempty : (Config.read path empty).toOption.map (fun config => config.projects.isEmpty) =
      some true := by
    decide +kernel
  have htext (text : String) : (files text).readText path = .ok text :=
    FileSystem.readText_eq_ok_iff.mpr rfl
  constructor
  · obtain ⟨config, hconfig, hselect⟩ := Option.bind_eq_some_iff.mp hnamed
    obtain ⟨entry, hentry, hexplorer⟩ := Option.map_eq_some_iff.mp hselect
    have hread := toOption_eq_some_iff.mp hconfig
    have hsome : config ≠ .multi .empty := by
      rintro rfl
      cases hentry
    obtain ⟨name, project, -, hfirst, hscope⟩ := (accepted_config_grants hread).2.1 hsome
    obtain rfl := Option.some.inj (hfirst.symm.trans hentry)
    have hgranted := hscope (files named) invocation rfl (.given rfl) (htext named)
    rw [Explorer.scope, hexplorer] at hgranted
    exact ⟨config, hread, hsome, hgranted⟩
  · obtain ⟨config, hconfig, hprojects⟩ := Option.map_eq_some_iff.mp hempty
    have hread := toOption_eq_some_iff.mp hconfig
    obtain ⟨hnone, -, hscope⟩ := accepted_config_grants hread
    have heq := hnone.mp (List.isEmpty_iff.mp hprojects)
    exact ⟨config, hread, heq,
      (hscope heq).2.2 (files empty) invocation rfl (.given rfl) (htext empty)⟩

end Console.Invocation
end QueryLocator
