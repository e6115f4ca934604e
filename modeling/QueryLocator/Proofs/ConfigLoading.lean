import QueryLocator.Config.Loading
import QueryLocator.Proofs.Outcomes

/-! # What loading accepts and refuses

The text of a file is accepted exactly when its name stands for a format, it is a configuration in
that format, and all projects of the configuration are usable (`Config.read_eq_ok_iff`); every other
text is refused for one of three reasons (`Config.read_eq_error_iff`).  Whatever the format is, what
was accepted was fitted to plain data (`Config.exists_datum_of_ofText`).
-/
namespace QueryLocator

/-! ## Usable projects -/

theorem Text.isBlank_eq_false_iff {text : String} :
    isBlank text = false ↔ ∃ c ∈ text.toList, isBlankChar c = false := by
  simp [isBlank]

/-- What makes a project usable: sources, none of which is blank, and a root selector that is not
blank. -/
structure Project.Usable (project : Project) : Prop where
  hasSource : project.schema.sources ≠ []
  sources : ∀ source ∈ project.schema.sources, ∃ c ∈ source.toList, Text.isBlankChar c = false
  root : ∃ c ∈ project.explorer.rootSelector.toList, Text.isBlankChar c = false

theorem Project.fault?_eq_none_iff {project : Project} : project.fault? = none ↔ project.Usable := by
  have hsources : project.schema.sources.any Text.isBlank = false ↔
      ∀ source ∈ project.schema.sources, ∃ c ∈ source.toList, Text.isBlankChar c = false := by
    simp [← Text.isBlank_eq_false_iff]
  unfold fault?
  constructor
  · intro h
    split at h
    · cases h
    next hsome =>
      split at h
      · cases h
      next hink =>
        split at h
        · cases h
        next hroot =>
          exact ⟨by simpa using hsome, hsources.mp (Bool.eq_false_iff.mpr hink),
            Text.isBlank_eq_false_iff.mp (Bool.eq_false_iff.mpr hroot)⟩
  · rintro ⟨hsome, hink, hroot⟩
    rw [if_neg (by simpa using hsome), if_neg (Bool.eq_false_iff.mp (hsources.mpr hink)),
      if_neg (Bool.eq_false_iff.mp (Text.isBlank_eq_false_iff.mpr hroot))]

namespace Config

/-- A configuration has no fault if all its projects are usable. -/
theorem fault?_eq_none_iff {config : Config} :
    config.fault? = none ↔ ∀ entry ∈ config.projects, entry.2.Usable := by
  simp [fault?, List.findSome?_eq_none_iff, ← Project.fault?_eq_none_iff]

theorem check_eq_ok_iff {config accepted : Config} :
    check config = .ok accepted ↔ config = accepted ∧ config.fault? = none := by
  unfold check
  split <;> simp_all

theorem check_eq_error_iff {config : Config} {problem : ConfigProblem} :
    check config = .error problem ↔
      ∃ name fault, config.fault? = some (name, fault) ∧ .unusable name fault = problem := by
  unfold check
  split
  next name fault hfault => simp [hfault, and_assoc]
  next hnone => simp [hnone]

/-! ## Accepted texts -/

variable {path : Path} {text : String} {config : Config}

/-- **A text is accepted if it is a configuration in the format of its path, with usable projects
only.** -/
theorem read_eq_ok_iff : read path text = .ok config ↔
    ∃ format, path.configFormat? = some format ∧ ofText format text = .ok config ∧
      ∀ entry ∈ config.projects, entry.2.Usable := by
  unfold read
  cases hformat : path.configFormat? with
  | none => simp
  | some format =>
    simp only [mapError_eq_ok_iff, bind_eq_ok_iff, check_eq_ok_iff, ← fault?_eq_none_iff,
      Option.some.injEq, exists_eq_left']
    constructor
    · rintro ⟨_, htext, rfl, hfault⟩
      exact ⟨htext, hfault⟩
    · rintro ⟨htext, hfault⟩
      exact ⟨config, htext, rfl, hfault⟩

/-- The reasons for which the text of a file is refused. -/
inductive RefusesText (path : Path) (text : String) : ConfigFailure → Prop where
  | unsupported (hformat : path.configFormat? = none) :
      RefusesText path text (.unsupportedFormat path)
  | undecodable {format : ConfigFormat} {problem : ConfigProblem}
      (hformat : path.configFormat? = some format) (htext : ofText format text = .error problem) :
      RefusesText path text (.invalid path problem)
  | unusable {format : ConfigFormat} {config : Config} {name : String} {fault : ProjectFault}
      (hformat : path.configFormat? = some format) (htext : ofText format text = .ok config)
      (hfault : config.fault? = some (name, fault)) :
      RefusesText path text (.invalid path (.unusable name fault))

/-- **A text that is not accepted is refused for one of the reasons.** -/
theorem read_eq_error_iff {failure : ConfigFailure} :
    read path text = .error failure ↔ RefusesText path text failure := by
  unfold read
  cases hformat : path.configFormat? with
  | none =>
    constructor
    · intro h
      obtain rfl := Except.error.inj h
      exact .unsupported hformat
    · rintro (_ | ⟨hsome, -⟩ | ⟨hsome, -, -⟩)
      · rfl
      all_goals simp [hformat] at hsome
  | some format =>
    simp only [mapError_eq_error_iff, bind_eq_error_iff, check_eq_error_iff]
    constructor
    · rintro ⟨problem, htext | ⟨config, htext, name, fault, hfault, rfl⟩, rfl⟩
      · exact .undecodable hformat htext
      · exact .unusable hformat htext hfault
    · rintro (hnone | ⟨hsome, htext⟩ | ⟨hsome, htext, hfault⟩)
      · simp [hformat] at hnone
      · obtain rfl := Option.some.inj (hformat.symm.trans hsome)
        exact ⟨_, Or.inl htext, rfl⟩
      · obtain rfl := Option.some.inj (hformat.symm.trans hsome)
        exact ⟨_, Or.inr ⟨_, htext, _, _, hfault, rfl⟩, rfl⟩

/-! ## Plain data -/

/-- What was read from YAML was fitted to plain data. -/
theorem exists_datum_of_yaml {α : Type} {fit : Datum → Except Mismatch α} {text : List Char}
    {value : α} (h : Yaml.read fit text = .ok value) : ∃ datum, fit datum = .ok value := by
  unfold Yaml.read at h
  dsimp only at h
  split at h
  next => cases h
  next datum _ =>
    split at h
    next => cases h
    next => cases h
    next found hfit _ =>
      split at h
      next => cases h
      next =>
        obtain rfl := Except.ok.inj h
        exact ⟨datum, hfit⟩

theorem exists_datum_of_ofYaml (h : ofYaml text = .ok config) :
    ∃ datum : Datum, datum.config? = some config := by
  obtain ⟨datum, hfit⟩ := exists_datum_of_yaml (mapError_eq_ok_iff.mp h)
  refine ⟨datum, ?_⟩
  split at hfit
  next found hfound =>
    obtain rfl := Except.ok.inj hfit
    exact hfound
  next => cases hfit

theorem exists_datum_of_ofJson (h : ofJson text = .ok config) :
    ∃ datum : Datum, datum.config? = some config := by
  have hdecode := mapError_eq_ok_iff.mp h
  unfold Wire.decode at hdecode
  split at hdecode
  next => cases hdecode
  next json _ =>
    split at hdecode
    next found hfound =>
      obtain rfl := Except.ok.inj hdecode
      exact ⟨json.datum, hfound⟩
    next => cases hdecode

/-- **A configuration in any format was fitted to plain data.** -/
theorem exists_datum_of_ofText {format : ConfigFormat} (h : ofText format text = .ok config) :
    ∃ datum : Datum, datum.config? = some config := by
  cases format with
  | yaml => exact exists_datum_of_ofYaml h
  | json => exact exists_datum_of_ofJson h
  | yamlOrJson =>
    unfold ofText at h
    dsimp only at h
    split at h
    next found hyaml =>
      obtain rfl := Except.ok.inj h
      exact exists_datum_of_ofYaml hyaml
    next => exact exists_datum_of_ofJson h

end Config
end QueryLocator
