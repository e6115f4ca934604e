import QueryLocator.Proofs.NameOrder
import QueryLocator.Proofs.ScopeSelection

/-! # Looking up projects

A configuration gives a project by its name in two ways.  One goes through the projects in order, the
other asks for the name: the map of named projects, or the one name that a single project goes by.  As
no name stands for two projects, both find the project that is listed under the name, or nothing
(`lookups_agree`).

A map holds under a name what was put there last, in whatever order the names came
(`Dictionary.get?_ofList`).
-/
namespace QueryLocator

/-! ## Entries by name -/

namespace Dictionary

variable {α : Type}

/-- Putting an entry into a list changes what is found under its name only. -/
theorem find?_insertEntry (name : String) (value : α) (entries : List (String × α))
    (sought : String) :
    (insertEntry name value entries).find? (·.1 = sought) =
      if name = sought then some (name, value) else entries.find? (·.1 = sought) := by
  induction entries with
  | nil => by_cases h : name = sought <;> simp [insertEntry, h]
  | cons head rest ih =>
    obtain ⟨found, old⟩ := head
    simp only [insertEntry]
    split
    next => by_cases h : name = sought <;> simp [List.find?_cons, h]
    next =>
      split
      next heq => by_cases h : name = sought <;> simp [← heq, h]
      next hne =>
        rw [List.find?_cons, ih, List.find?_cons]
        by_cases hfound : found = sought
        · have h : name ≠ sought := hfound ▸ hne
          simp [hfound, h]
        · simp [hfound]

theorem get?_insert (dictionary : Dictionary α) (name : String) (value : α) (sought : String) :
    (dictionary.insert name value).get? sought =
      if name = sought then some value else dictionary.get? sought := by
  rw [get?, insert, find?_insertEntry, get?]
  split <;> rfl

/-- **A dictionary holds under a name what was put there last.** -/
theorem get?_ofList (entries : List (String × α)) (name : String) :
    (ofList entries).get? name = (entries.reverse.find? (·.1 = name)).map Prod.snd := by
  induction entries using List.reverseRecOn with
  | nil => rfl
  | append_singleton entries last ih =>
    rw [ofList_concat, get?_insert, ih, List.reverse_concat, List.find?_cons]
    by_cases h : last.1 = name <;> simp [h]

end Dictionary

/-! ## Projects by name -/

namespace Config

/-- The project with a name is the one that is listed under it. -/
theorem project?_eq_some_iff {config : Config} {name : String} {project : Project} :
    config.project? name = some project ↔ (name, project) ∈ config.projects := by
  cases config with
  | single only =>
    simp only [project?, projects, List.mem_singleton, Prod.mk.injEq]
    split
    next hname => simp [hname, eq_comm]
    next hname => simp [hname]
  | multi named =>
    have hfound := @Dictionary.find?_name_eq_some_iff _ _ named.sorted name (name, project)
    simp only [and_true] at hfound
    rw [project?, projects, ← hfound, Dictionary.get?, Option.map_eq_some_iff]
    constructor
    · rintro ⟨entry, hentry, rfl⟩
      have hname : entry.1 = name := by simpa using List.find?_some hentry
      rw [hentry, ← hname]
    · intro hentry
      exact ⟨_, hentry, rfl⟩

/-- The walk along the projects finds what the look-up by name finds, and tells the name as well. -/
theorem select?_some_eq_some_iff {config : Config} {name : String} {entry : String × Project} :
    config.select? (some name) = some entry ↔
      entry.1 = name ∧ config.project? name = some entry.2 := by
  rw [select?, Dictionary.find?_name_eq_some_iff config.projects_sorted, project?_eq_some_iff,
    and_comm]
  constructor
  · rintro ⟨rfl, hmem⟩
    exact ⟨rfl, hmem⟩
  · rintro ⟨rfl, hmem⟩
    exact ⟨rfl, hmem⟩

/-- Without a name the project with the least name is selected. -/
theorem select?_none_eq_some_iff {config : Config} {entry : String × Project} :
    config.select? none = some entry ↔ entry ∈ config.projects ∧
      ∀ other ∈ config.projects, other = entry ∨ entry.1 < other.1 := by
  have hsorted := config.projects_sorted
  rw [select?]
  cases hprojects : config.projects with
  | nil => simp
  | cons first others =>
    rw [hprojects] at hsorted
    obtain ⟨hfirst, -⟩ := List.pairwise_cons.mp hsorted
    rw [List.head?_cons, Option.some.injEq]
    constructor
    · rintro rfl
      refine ⟨List.mem_cons_self .., fun other hother => ?_⟩
      exact (List.mem_cons.mp hother).imp_right (hfirst other)
    · rintro ⟨hmem, hleast⟩
      -- the first one would be before an entry that is before the first one
      rcases List.mem_cons.mp hmem with heq | hbehind
      · exact heq.symm
      · apply (hleast first (List.mem_cons_self ..)).resolve_right
        exact fun hlt => Std.lt_irrefl (Std.lt_trans hlt (hfirst entry hbehind))

/-- **The look-ups of a configuration agree.**  Selecting by name gives the name and the project that is
looked up by it, or nothing where that gives nothing.  The projects are listed in the order of the bytes
of their names, each name once, and those listed are those that are found by name.  Without a name the
project with the least name is selected, if there is any.  This holds whether the configuration has a
single project or a map of them, and the map holds under each name what was put there last. -/
theorem lookups_agree (config : Config) :
    (∀ name project, config.select? (some name) = some (name, project) ↔
      config.project? name = some project) ∧
    (∀ name entry, config.select? (some name) = some entry → entry.1 = name) ∧
    (∀ name, config.select? (some name) = none ↔ config.project? name = none) ∧
    (config.projects.Pairwise fun a b => Text.utf8Bytes a.1 < Text.utf8Bytes b.1) ∧
    (∀ name project, (name, project) ∈ config.projects ↔ config.project? name = some project) ∧
    (∀ entry, config.select? none = some entry ↔ entry ∈ config.projects ∧
      ∀ other ∈ config.projects, other = entry ∨ Text.utf8Bytes entry.1 < Text.utf8Bytes other.1) ∧
    ((∃ entry, config.select? none = some entry) ↔ config.projects ≠ []) ∧
    (∀ entries, config = .multi (.ofList entries) → ∀ name,
      config.project? name = (entries.reverse.find? (·.1 = name)).map Prod.snd) := by
  refine ⟨fun name project => ?_, fun name entry h => (select?_some_eq_some_iff.mp h).1,
    fun name => ?_, ?_, fun name project => project?_eq_some_iff.symm, fun entry => ?_, ?_, ?_⟩
  · rw [select?_some_eq_some_iff]
    exact and_iff_right rfl
  · -- what one of them finds the other finds as well
    rw [Option.eq_none_iff_forall_ne_some, Option.eq_none_iff_forall_ne_some]
    constructor
    · intro hnone project hproject
      exact hnone (name, project) (select?_some_eq_some_iff.mpr ⟨rfl, hproject⟩)
    · intro hnone entry hentry
      exact hnone entry.2 (select?_some_eq_some_iff.mp hentry).2
  · exact config.projects_sorted.imp Text.lt_iff_utf8Bytes_lt.mp
  · simp only [select?_none_eq_some_iff, Text.lt_iff_utf8Bytes_lt]
  · rw [select?, ← Option.isSome_iff_exists, List.isSome_head?, ne_eq]
  · rintro entries rfl name
    exact Dictionary.get?_ofList entries name

/-- Of two projects that are put under one name the later one stays, and a project may go by the name
of a single one. -/
example (first second third : Project) :
    (Config.multi (.ofList [("é", first), ("default", second), ("é", third)])).projects =
      [("default", second), ("é", third)] := rfl

end Config
end QueryLocator
