import Mathlib.Data.List.DropRight
import QueryLocator.Proofs.NameOrder
import QueryLocator.Proofs.ScopeSelection

/-! # Which configurations are accepted

Three things settle what becomes of the text of a file: the last name of its path, the decoder that
this name selects, and the checks of the projects.  Each is put here in terms of its own, without
the functions that compute it: a name ends in a dot and an ending (`Path.EndsIn`), a text decodes to
a configuration (`Config.DecodesTo`), a project violates a check (`Project.Violates`).  Of several
violations the one that is reported comes first, in the order of the bytes of the names and then of
the checks (`Config.FirstFault`).
-/
namespace QueryLocator

/-! ## Trimming -/

namespace Text

/-- What is left of a text without the white space at its ends. -/
def trimmed (text : String) : List Char :=
  (text.toList.dropWhile isBlankChar).rdropWhile isBlankChar

/-- A text is blank if trimming leaves nothing of it. -/
theorem isBlank_iff_trimmed {text : String} : isBlank text = true ↔ trimmed text = [] := by
  rw [isBlank, List.all_eq_true, trimmed, List.rdropWhile_eq_nil_iff]
  constructor
  · intro h c hc
    exact h c ((List.dropWhile_suffix _).subset hc)
  · intro h
    cases hrest : text.toList.dropWhile isBlankChar with
    | nil => exact List.dropWhile_eq_nil_iff.mp hrest
    | cons c rest =>
      -- what the white space at the front is followed by is none
      have hc := List.head?_dropWhile_not isBlankChar text.toList
      rw [hrest] at hc h
      simp [h c (List.mem_cons_self ..)] at hc

theorem trimmed_ne_nil_iff {text : String} :
    trimmed text ≠ [] ↔ ∃ c ∈ text.toList, isBlankChar c = false := by
  rw [ne_eq, ← isBlank_iff_trimmed, Bool.not_eq_true, isBlank_eq_false_iff]

end Text

/-! ## Endings of names -/

namespace Path

variable {path : Path} {name ending : List Char}

/-- A name has a last dot, or no dot at all. -/
theorem exists_last_dot (name : List Char) :
    '.' ∉ name ∨ ∃ stem ending, '.' ∉ ending ∧ name = stem ++ '.' :: ending := by
  by_cases hdot : '.' ∈ name
  · obtain ⟨before, after, hname, hbefore⟩ := List.eq_append_cons_of_mem (List.mem_reverse.mpr hdot)
    refine Or.inr ⟨after.reverse, before.reverse, by simpa using hbefore, ?_⟩
    rw [← List.reverse_reverse name, hname]
    simp
  · exact Or.inl hdot

theorem takeWhile_reverse (h : '.' ∉ ending) (stem : List Char) :
    (stem ++ '.' :: ending).reverse.takeWhile (· ≠ '.') = ending.reverse := by
  have hending : ∀ c ∈ ending.reverse, decide (c ≠ '.') = true := fun c hc =>
    decide_eq_true fun heq => h (heq ▸ List.mem_reverse.mp hc)
  rw [List.reverse_append, List.reverse_cons, List.append_assoc,
    List.takeWhile_append_of_pos hending]
  simp

/-- What comes after the last dot of a name is its extension, if something comes before that dot. -/
theorem extensionOf_append (h : '.' ∉ ending) {stem : List Char} :
    extensionOf (stem ++ '.' :: ending) = if stem = [] then [] else ending := by
  have hlength : ending.reverse.length + 1 < (stem ++ '.' :: ending).length ↔ stem ≠ [] := by
    rw [← List.length_pos_iff]
    simp
  rw [extensionOf, takeWhile_reverse h]
  split
  next hlt => rw [if_neg (hlength.mp hlt), List.reverse_reverse]
  next hge => rw [if_pos (not_not.mp (mt hlength.mpr hge))]

theorem extensionOf_of_notMem (h : '.' ∉ name) : extensionOf name = [] := by
  have htake : name.reverse.takeWhile (· ≠ '.') = name.reverse :=
    List.takeWhile_eq_self_iff.mpr fun c hc =>
      decide_eq_true fun heq => h (heq ▸ List.mem_reverse.mp hc)
  rw [extensionOf, htake, if_neg (by simp)]

theorem extensionOf_eq_iff (h : ending ≠ []) :
    extensionOf name = ending ↔ ∃ stem ≠ [], '.' ∉ ending ∧ name = stem ++ '.' :: ending := by
  constructor
  · rintro rfl
    rcases exists_last_dot name with hnone | ⟨stem, ending, hdot, rfl⟩
    · exact absurd (extensionOf_of_notMem hnone) h
    · rw [extensionOf_append hdot] at h ⊢
      split at h
      next => exact absurd rfl h
      next hstem => exact ⟨stem, hstem, by rwa [if_neg hstem], by rw [if_neg hstem]⟩
  · rintro ⟨stem, hstem, hdot, rfl⟩
    rw [extensionOf_append hdot, if_neg hstem]

/-- The last name of a path ends in a dot and the given ending, with something in front of the dot.
-/
def EndsIn (path : Path) (ending : String) : Prop :=
  ∃ stem ≠ [], '.' ∉ ending.toList ∧ path.fileName? = some (stem ++ '.' :: ending.toList)

theorem extension_eq_iff {ending : String} (h : ending ≠ "") :
    path.extension = ending.toList ↔ path.EndsIn ending := by
  have hending : ending.toList ≠ [] := by simpa using h
  unfold extension EndsIn
  cases path.fileName? with
  | none => simpa using Ne.symm hending
  | some name => simp [extensionOf_eq_iff hending]

/-- The formats that the last names of paths stand for. -/
inductive StandsFor (path : Path) : ConfigFormat → Prop where
  | yaml (hname : path.EndsIn "yml" ∨ path.EndsIn "yaml") : StandsFor path .yaml
  | json (hname : path.EndsIn "json") : StandsFor path .json
  | yamlOrJson (hname : path.fileName? = some ".graphqlrc".toList) : StandsFor path .yamlOrJson

theorem EndsIn.extension_eq {ending : String} (hne : ending ≠ "") (h : path.EndsIn ending) :
    path.extension = ending.toList :=
  (extension_eq_iff hne).mpr h

/-- **The format of a path is the one that its last name stands for.** -/
theorem configFormat?_eq_some_iff {format : ConfigFormat} :
    path.configFormat? = some format ↔ path.StandsFor format := by
  have hends {ending : String} (hne : ending ≠ "") (h : String.ofList path.extension = ending) :
      path.EndsIn ending :=
    (extension_eq_iff hne).mp (by rw [← h, String.toList_ofList])
  constructor
  · intro h
    unfold configFormat? at h
    split at h
    next hyml =>
      obtain rfl := Option.some.inj h
      exact .yaml (Or.inl (hends (by decide) hyml))
    next hyaml =>
      obtain rfl := Option.some.inj h
      exact .yaml (Or.inr (hends (by decide) hyaml))
    next hjson =>
      obtain rfl := Option.some.inj h
      exact .json (hends (by decide) hjson)
    next =>
      obtain ⟨hname, hformat⟩ := Option.ite_none_right_eq_some.mp h
      obtain rfl := Option.some.inj hformat
      exact .yamlOrJson hname
    next => cases h
  · rintro ((hyml | hyaml) | hjson | hname)
    · rw [configFormat?, hyml.extension_eq (by decide)]
      rfl
    · rw [configFormat?, hyaml.extension_eq (by decide)]
      rfl
    · rw [configFormat?, hjson.extension_eq (by decide)]
      rfl
    · rw [configFormat?, extension, hname]
      rfl

end Path

/-! ## Violations -/

/-- What violates a check of a project: there is no source, or one that trimming leaves nothing of,
or trimming leaves nothing of the root selector. -/
inductive Project.Violates (project : Project) : ProjectFault → Prop where
  | noSource (hnone : project.schema.sources = []) : Violates project .noSource
  | blankSource {source : String} (hmem : source ∈ project.schema.sources)
      (hblank : Text.trimmed source = []) : Violates project .blankSource
  | blankRootSelector (hblank : Text.trimmed project.explorer.rootSelector = []) :
      Violates project .blankRootSelector

namespace ProjectFault

/-- The place of a check in the order in which they are made. -/
def rank : ProjectFault → Nat
  | noSource => 0
  | blankSource => 1
  | blankRootSelector => 2

/-- What of a project a check is about. -/
def subject : ProjectFault → String
  | noSource => "schema configuration"
  | blankSource => "schema path"
  | blankRootSelector => "explorer root selector"

/-- The wording names the project and what is empty of it. -/
theorem message_eq (fault : ProjectFault) (name : String) :
    fault.message name = "Project '" ++ name ++ "' has empty " ++ fault.subject := by
  cases fault <;> simp [message, subject, toString, ← String.toList_inj]

theorem rank_injective : Function.Injective rank := by
  intro a b hab
  cases a <;> cases b <;> first | rfl | cases hab

end ProjectFault

namespace Project

variable {project : Project} {fault : ProjectFault}

theorem usable_iff : project.Usable ↔ project.schema.sources ≠ [] ∧
    (∀ source ∈ project.schema.sources, Text.trimmed source ≠ []) ∧
      Text.trimmed project.explorer.rootSelector ≠ [] := by
  simp only [Text.trimmed_ne_nil_iff]
  exact ⟨fun ⟨hsome, hsources, hroot⟩ => ⟨hsome, hsources, hroot⟩,
    fun ⟨hsome, hsources, hroot⟩ => ⟨hsome, hsources, hroot⟩⟩

/-- A project is usable unless it violates a check. -/
theorem usable_iff_not_violates : project.Usable ↔ ∀ fault, ¬project.Violates fault := by
  rw [usable_iff]
  constructor
  · rintro ⟨hsome, hsources, hroot⟩ fault (hnone | ⟨hmem, hblank⟩ | hblank)
    · exact hsome hnone
    · exact hsources _ hmem hblank
    · exact hroot hblank
  · intro h
    exact ⟨fun hnone => h _ (.noSource hnone), fun _ hmem hblank => h _ (.blankSource hmem hblank),
      fun hblank => h _ (.blankRootSelector hblank)⟩

/-- What is found first is violated, and so is nothing before it. -/
theorem violates_of_fault? (h : project.fault? = some fault) :
    project.Violates fault ∧ ∀ other, project.Violates other → fault.rank ≤ other.rank := by
  unfold fault? at h
  split at h
  next hnone =>
    obtain rfl := Option.some.inj h
    exact ⟨.noSource (List.isEmpty_iff.mp hnone), fun _ _ => Nat.zero_le _⟩
  next hsome =>
    split at h
    next hany =>
      obtain rfl := Option.some.inj h
      obtain ⟨source, hmem, hblank⟩ := List.any_eq_true.mp hany
      refine ⟨.blankSource hmem (Text.isBlank_iff_trimmed.mp hblank), ?_⟩
      rintro other (hnone | _ | _)
      · exact absurd (List.isEmpty_iff.mpr hnone) hsome
      all_goals decide
    next hink =>
      obtain ⟨hblank, hfault⟩ := Option.ite_none_right_eq_some.mp h
      obtain rfl := Option.some.inj hfault
      refine ⟨.blankRootSelector (Text.isBlank_iff_trimmed.mp hblank), ?_⟩
      rintro other (hnone | ⟨hmem, hsource⟩ | _)
      · exact absurd (List.isEmpty_iff.mpr hnone) hsome
      · exact absurd (List.any_eq_true.mpr ⟨_, hmem, Text.isBlank_iff_trimmed.mpr hsource⟩) hink
      · decide

/-- **The fault of a project is the first check that it violates.** -/
theorem fault?_eq_some_iff : project.fault? = some fault ↔
    project.Violates fault ∧ ∀ other, project.Violates other → fault.rank ≤ other.rank := by
  refine ⟨violates_of_fault?, fun ⟨hviolates, hfirst⟩ => ?_⟩
  cases hfault : project.fault? with
  | none => exact absurd hviolates (usable_iff_not_violates.mp (fault?_eq_none_iff.mp hfault) fault)
  | some found =>
    obtain ⟨hfound, hleast⟩ := violates_of_fault? hfault
    have hrank := Nat.le_antisymm (hleast fault hviolates) (hfirst found hfound)
    rw [ProjectFault.rank_injective hrank]

end Project

namespace Config

variable {path : Path} {text : String} {config : Config} {name : String} {fault : ProjectFault}

/-- The violation that comes first: no violating project has a name whose bytes come before those of
this one, and the project violates no check before this one. -/
structure FirstFault (config : Config) (name : String) (fault : ProjectFault) : Prop where
  violated : ∃ project, (name, project) ∈ config.projects ∧ project.Violates fault ∧
    ∀ other, project.Violates other → fault.rank ≤ other.rank
  least : ∀ entry ∈ config.projects, ∀ other, entry.2.Violates other →
    entry.1 = name ∨ Text.utf8Bytes name < Text.utf8Bytes entry.1

/-- The fault that is found comes first. -/
theorem firstFault_of_fault? (h : config.fault? = some (name, fault)) :
    config.FirstFault name fault := by
  unfold fault? at h
  obtain ⟨before, entry, after, hprojects, hentry, hbefore⟩ := List.findSome?_eq_some_iff.mp h
  obtain ⟨found, hfound, hpair⟩ := Option.map_eq_some_iff.mp hentry
  obtain ⟨hname, rfl⟩ := Prod.mk.inj hpair
  have hsorted := config.projects_sorted
  rw [hprojects] at hsorted
  refine ⟨⟨entry.2, by simp [hprojects, ← hname], Project.fault?_eq_some_iff.mp hfound⟩, ?_⟩
  intro other hmem violated hviolated
  rw [hprojects] at hmem
  rcases List.mem_append.mp hmem with hother | hother
  · have hnone := Option.map_eq_none_iff.mp (hbefore other hother)
    exact absurd hviolated
      (Project.usable_iff_not_violates.mp (Project.fault?_eq_none_iff.mp hnone) violated)
  · rcases List.mem_cons.mp hother with rfl | hother
    · exact Or.inl hname
    · have hlt := (List.pairwise_cons.mp (List.pairwise_append.mp hsorted).2.1).1 other hother
      exact Or.inr (Text.lt_iff_utf8Bytes_lt.mp (hname ▸ hlt))

/-- Where a project violates a check, a fault is found. -/
theorem exists_fault? {entry : String × Project} (hmem : entry ∈ config.projects)
    (hviolates : entry.2.Violates fault) : ∃ name first, config.fault? = some (name, first) := by
  cases hfault : config.fault? with
  | some found => exact ⟨found.1, found.2, rfl⟩
  | none =>
    have husable := fault?_eq_none_iff.mp hfault entry hmem
    exact absurd hviolates (Project.usable_iff_not_violates.mp husable fault)

/-! ## Reading -/

/-- A text decodes to a configuration by the decoder that the path selects.  Under the name
`.graphqlrc` it is read as JSON only if reading it as YAML fails. -/
inductive DecodesTo (path : Path) (text : String) (config : Config) : Prop where
  | yaml (hpath : path.EndsIn "yml" ∨ path.EndsIn "yaml") (htext : ofYaml text = .ok config)
  | json (hpath : path.EndsIn "json") (htext : ofJson text = .ok config)
  | firstTry (hpath : path.fileName? = some ".graphqlrc".toList) (htext : ofYaml text = .ok config)
  | secondTry {problem : ConfigProblem} (hpath : path.fileName? = some ".graphqlrc".toList)
      (hyaml : ofYaml text = .error problem) (htext : ofJson text = .ok config)

theorem decodesTo_iff : DecodesTo path text config ↔
    ∃ format, path.configFormat? = some format ∧ ofText format text = .ok config := by
  simp only [Path.configFormat?_eq_some_iff]
  constructor
  · rintro (⟨hpath, htext⟩ | ⟨hpath, htext⟩ | ⟨hpath, htext⟩ | ⟨hpath, hyaml, htext⟩)
    · exact ⟨.yaml, .yaml hpath, htext⟩
    · exact ⟨.json, .json hpath, htext⟩
    · exact ⟨.yamlOrJson, .yamlOrJson hpath, by rw [ofText, htext]⟩
    · exact ⟨.yamlOrJson, .yamlOrJson hpath, by rw [ofText, hyaml]; exact htext⟩
  · rintro ⟨format, hpath | hpath | hpath, htext⟩
    · exact .yaml hpath htext
    · exact .json hpath htext
    · unfold ofText at htext
      dsimp only at htext
      split at htext
      next hyaml =>
        obtain rfl := Except.ok.inj htext
        exact .firstTry hpath hyaml
      next problem hyaml => exact .secondTry hpath hyaml htext

theorem configFormat?_eq_none_iff : path.configFormat? = none ↔
    ¬path.EndsIn "yml" ∧ ¬path.EndsIn "yaml" ∧ ¬path.EndsIn "json" ∧
      path.fileName? ≠ some ".graphqlrc".toList := by
  rw [Option.eq_none_iff_forall_ne_some]
  simp only [ne_eq, Path.configFormat?_eq_some_iff]
  constructor
  · intro h
    exact ⟨fun hyml => h _ (.yaml (Or.inl hyml)), fun hyaml => h _ (.yaml (Or.inr hyaml)),
      fun hjson => h _ (.json hjson), fun hname => h _ (.yamlOrJson hname)⟩
  · rintro ⟨hyml, hyaml, hjson, hname⟩ format (hpath | hpath | hpath)
    · exact hpath.elim hyml hyaml
    · exact hjson hpath
    · exact hname hpath

/-- The wording of a failure names the file, the project and what is empty of it. -/
theorem message_of_unusable (path : Path) (name : String) (fault : ProjectFault) :
    ConfigFailure.message (.invalid path (.unusable name fault)) =
      "Invalid configuration at " ++ path.text ++ ": " ++
        ("Project '" ++ name ++ "' has empty " ++ fault.subject) := by
  rw [← ProjectFault.message_eq]
  rfl

/-- **Loading accepts exactly the valid configurations.** -/
theorem read_accepts_valid (path : Path) (text : String) :
    (∀ refused, read path text = .error (.unsupportedFormat refused) ↔ refused = path ∧
      ¬path.EndsIn "yml" ∧ ¬path.EndsIn "yaml" ∧ ¬path.EndsIn "json" ∧
        path.fileName? ≠ some ".graphqlrc".toList) ∧
    (∀ config, read path text = .ok config ↔ DecodesTo path text config ∧
      ∀ entry ∈ config.projects, entry.2.schema.sources ≠ [] ∧
        (∀ source ∈ entry.2.schema.sources, Text.trimmed source ≠ []) ∧
          Text.trimmed entry.2.explorer.rootSelector ≠ []) ∧
    ∀ config, DecodesTo path text config → ∀ entry ∈ config.projects, ∀ fault,
      entry.2.Violates fault → ∃ name first, config.FirstFault name first ∧
        read path text = .error (.invalid path (.unusable name first)) ∧
        ConfigFailure.message (.invalid path (.unusable name first)) =
          "Invalid configuration at " ++ path.text ++ ": " ++
            ("Project '" ++ name ++ "' has empty " ++ first.subject) := by
  refine ⟨fun refused => ?_, fun config => ?_, fun config hdecodes entry hmem fault hviolates => ?_⟩
  · rw [read_eq_error_iff, ← configFormat?_eq_none_iff]
    constructor
    · rintro ⟨hformat⟩
      exact ⟨rfl, hformat⟩
    · rintro ⟨rfl, hformat⟩
      exact .unsupported hformat
  · simp only [read_eq_ok_iff, decodesTo_iff, ← Project.usable_iff]
    constructor
    · rintro ⟨format, hformat, htext, husable⟩
      exact ⟨⟨format, hformat, htext⟩, husable⟩
    · rintro ⟨⟨format, hformat, htext⟩, husable⟩
      exact ⟨format, hformat, htext, husable⟩
  · obtain ⟨name, first, hfault⟩ := exists_fault? hmem hviolates
    obtain ⟨format, hformat, htext⟩ := decodesTo_iff.mp hdecodes
    exact ⟨name, first, firstFault_of_fault? hfault,
      read_eq_error_iff.mpr (.unusable hformat htext hfault), message_of_unusable path name first⟩

/-- The first name is the smaller one in bytes, though not in units of sixteen bits, and so its
project is reported for its second source; the root selector, which is blank too, comes too late.
No YAML writes a name in surrogates. -/
theorem read_accepts_valid_in_byte_order :
    let path : Path := ⟨"./.graphqlrc/."⟩
    let text := "\x7b\"projects\":\x7b\"\\ud83d\\ude00\":\x7b\"schema\":[]\x7d," ++
      "\"\\ue000\":\x7b\"schema\":[\"s\",\"\\u00a0\"]," ++
        "\"explorer\":\x7b\"rootSelector\":\"\"\x7d\x7d\x7d\x7d"
    ∃ config entry fault, DecodesTo path text config ∧ entry ∈ config.projects ∧
      entry.2.Violates fault ∧ config.FirstFault "\ue000" .blankSource ∧
      read path text = .error (.invalid path (.unusable "\ue000" .blankSource)) := by
  intro path text
  have hyaml : (ofYaml text).toOption = none := by decide +kernel
  have hjson : (ofJson text).toOption.map (fun config => (config.fault?,
      config.projects.getLast?.bind fun entry => entry.2.fault?)) =
        some (some ("\ue000", .blankSource), some .noSource) := by
    decide +kernel
  obtain ⟨config, hconfig, htests⟩ := Option.map_eq_some_iff.mp hjson
  obtain ⟨hreported, hlast⟩ := Prod.mk.inj htests
  obtain ⟨entry, hentry, hfault⟩ := Option.bind_eq_some_iff.mp hlast
  obtain ⟨problem, hproblem⟩ : ∃ problem, ofYaml text = .error problem := by
    cases hdecoded : ofYaml text with
    | ok config => simp [hdecoded, Except.toOption] at hyaml
    | error problem => exact ⟨problem, rfl⟩
  have hdecodes : DecodesTo path text config :=
    .secondTry (by decide +kernel) hproblem (toOption_eq_some_iff.mp hconfig)
  have hmem := List.mem_of_getLast? hentry
  have hviolates := (Project.violates_of_fault? hfault).1
  obtain ⟨name, first, hfirst, hread, -⟩ :=
    (read_accepts_valid path text).2.2 config hdecodes entry hmem _ hviolates
  obtain ⟨format, hformat, htext⟩ := decodesTo_iff.mp hdecodes
  have hrefused := read_eq_error_iff.mpr (.unusable hformat htext hreported)
  obtain ⟨-, hproblem⟩ := ConfigFailure.invalid.inj (Except.error.inj (hread.symm.trans hrefused))
  obtain ⟨rfl, rfl⟩ := ConfigProblem.unusable.inj hproblem
  exact ⟨config, entry, _, hdecodes, hmem, hviolates, hfirst, hread⟩

end Config
end QueryLocator
