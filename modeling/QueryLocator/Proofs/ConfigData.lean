import Mathlib.Data.List.Nodup
import QueryLocator.Config.Encoding
import QueryLocator.Proofs.JsonData

/-! # Configurations as data, and back

A configuration comes back from the data that is written for it (`Datum.config?_toJson`): a single
project has a schema, which named projects do not have beside them, and what is left out where it is
absent is absent when it is missing.  Only the values that other tools keep need unique keys for that,
and those of a configuration that was read from data have them (`Datum.hasUniqueKeys_of_config?`).
-/
namespace QueryLocator

open Json

/-! ## Reading one after the other -/

section Lists
variable {α β : Type} {f : α → Option β}

/-- What was made from values is read as the values. -/
theorem mapM_map_of_some {g : β → α} {values : List β}
    (h : ∀ value ∈ values, f (g value) = some value) :
    (values.map g).mapM f = some values := by
  induction values with
  | nil => rfl
  | cons value values ih =>
    rw [List.map_cons, List.mapM_cons, h value (List.mem_cons_self ..),
      ih fun other hother => h other (List.mem_cons_of_mem _ hother)]
    rfl

/-- What was read was read from something. -/
theorem exists_of_mem_mapM {sources : List α} {values : List β} (h : sources.mapM f = some values)
    {value : β} (hvalue : value ∈ values) : ∃ source ∈ sources, f source = some value := by
  induction sources generalizing values with
  | nil =>
    obtain rfl := Option.some.inj h
    simp at hvalue
  | cons source sources ih =>
    rw [List.mapM_cons] at h
    simp only [bind, Option.bind_eq_some_iff] at h
    obtain ⟨first, hfirst, others, hothers, hvalues⟩ := h
    obtain rfl := Option.some.inj hvalues
    rcases List.mem_cons.mp hvalue with rfl | hvalue
    · exact ⟨source, List.mem_cons_self .., hfirst⟩
    · obtain ⟨found, hfound, hread⟩ := ih hothers hvalue
      exact ⟨found, List.mem_cons_of_mem _ hfound, hread⟩

end Lists

theorem Json.itemData_eq_map (items : List Json) : itemData items = items.map datum := by
  induction items with
  | nil => rfl
  | cons item items ih => rw [itemData, ih, List.map_cons]

theorem Json.memberData_eq_map (members : List (String × Json)) :
    memberData members = members.map fun member => (.string member.1, member.2.datum) := by
  induction members with
  | nil => rfl
  | cons member members ih => rw [memberData, ih, List.map_cons]

/-! ## Dictionaries -/

namespace Dictionary

variable {α : Type}

/-- Where names are unique, the entry that is found is the one with the name. -/
theorem find?_name_eq_some_iff {entries : List (String × α)}
    (hsorted : entries.Pairwise fun a b => a.1 < b.1) {name : String} {entry : String × α} :
    entries.find? (·.1 = name) = some entry ↔ entry ∈ entries ∧ entry.1 = name := by
  constructor
  · intro hfound
    exact ⟨List.mem_of_find?_eq_some hfound, by simpa using List.find?_some hfound⟩
  · rintro ⟨hmem, hname⟩
    obtain ⟨found, hfound⟩ : ∃ found, entries.find? (·.1 = name) = some found :=
      Option.isSome_iff_exists.mp (List.find?_isSome.mpr ⟨entry, hmem, by simpa using hname⟩)
    have hunique : (entries.map Prod.fst).Nodup :=
      List.pairwise_map.mpr (hsorted.imp fun hlt => Std.ne_of_lt hlt)
    have hsame : found.1 = entry.1 := by simpa [hname] using List.find?_some hfound
    rw [hfound, List.inj_on_of_nodup_map hunique (List.mem_of_find?_eq_some hfound) hmem hsame]

/-- A name behind all others is put at the end. -/
theorem insertEntry_of_lt {name : String} {value : α} {entries : List (String × α)}
    (h : ∀ entry ∈ entries, entry.1 < name) :
    insertEntry name value entries = entries ++ [(name, value)] := by
  induction entries with
  | nil => rfl
  | cons entry entries ih =>
    obtain ⟨found, old⟩ := entry
    have hlt : found < name := h _ (List.mem_cons_self ..)
    have hne : name ≠ found := fun heq => Std.lt_irrefl (heq ▸ hlt)
    rw [insertEntry, if_neg (Std.not_lt.mpr (Std.le_of_lt hlt)), if_neg hne,
      ih fun entry hentry => h entry (List.mem_cons_of_mem _ hentry), List.cons_append]

theorem ofList_concat (entries : List (String × α)) (entry : String × α) :
    ofList (entries ++ [entry]) = (ofList entries).insert entry.1 entry.2 := by
  simp [ofList]

/-- **A dictionary is made of its entries.** -/
theorem ofList_entries (dictionary : Dictionary α) : ofList dictionary.entries = dictionary := by
  obtain ⟨entries, hsorted⟩ := dictionary
  suffices h : (ofList entries).entries = entries by
    cases hmade : ofList entries
    simp_all
  -- from the end, where the entry with the greatest name is put in last
  induction entries using List.reverseRecOn with
  | nil => rfl
  | append_singleton entries last ih =>
    rw [List.pairwise_append] at hsorted
    obtain ⟨hfront, -, hbehind⟩ := hsorted
    have hlast : ∀ entry ∈ entries, entry.1 < last.1 := fun entry hentry =>
      hbehind entry hentry last (by simp)
    rw [ofList_concat, insert]
    simp only [ih hfront]
    exact insertEntry_of_lt hlast

theorem mem_ofList {entries : List (String × α)} {entry : String × α}
    (h : entry ∈ (ofList entries).entries) : entry ∈ entries := by
  induction entries using List.reverseRecOn with
  | nil => simp [ofList, empty] at h
  | append_singleton entries last ih =>
    rw [ofList_concat] at h
    rcases mem_insertEntry h with rfl | h
    · simp
    · exact List.mem_append_left _ (ih h)

end Dictionary

namespace Datum

section Dictionaries
variable {α : Type} {value? : Datum → Option α}

/-- A member of a map as an entry of a dictionary. -/
def namedValue? (value? : Datum → Option α) (member : Datum × Datum) : Option (String × α) :=
  match member.1.string?, value? member.2 with
  | some name, some value => some (name, value)
  | _, _ => none

theorem dictionary?_map (members : List (Datum × Datum)) :
    (map members).dictionary? value? =
      (members.mapM (namedValue? value?)).map Dictionary.ofList := rfl

/-- A dictionary comes back if its values do. -/
theorem dictionary?_object {toJson : α → Json} (dictionary : Dictionary α)
    (h : ∀ entry ∈ dictionary.entries, value? (toJson entry.2).datum = some entry.2) :
    (Json.object (dictionary.entries.map fun entry => (entry.1, toJson entry.2))).datum.dictionary?
      value? = some dictionary := by
  have hentries : (dictionary.entries.map fun entry : String × α =>
      (Datum.string entry.1, (toJson entry.2).datum)).mapM (namedValue? value?) =
        some dictionary.entries := by
    refine mapM_map_of_some fun entry hentry => ?_
    rw [namedValue?, h entry hentry]
    rfl
  rw [Json.datum, dictionary?_map, memberData_eq_map, List.map_map]
  exact (congrArg (Option.map Dictionary.ofList) hentries).trans
    (congrArg some dictionary.ofList_entries)

/-- The values of a dictionary were read. -/
theorem exists_of_mem_dictionary? {datum : Datum} {dictionary : Dictionary α}
    (h : datum.dictionary? value? = some dictionary) {entry : String × α}
    (hentry : entry ∈ dictionary.entries) : ∃ source, value? source = some entry.2 := by
  match datum with
  | map members =>
    rw [dictionary?_map, Option.map_eq_some_iff] at h
    obtain ⟨entries, hread, rfl⟩ := h
    obtain ⟨⟨key, source⟩, -, hsource⟩ := exists_of_mem_mapM hread (Dictionary.mem_ofList hentry)
    refine ⟨source, ?_⟩
    rw [namedValue?] at hsource
    split at hsource
    next name value hname hvalue =>
      obtain rfl := Option.some.inj hsource
      exact hvalue
    next => cases hsource

end Dictionaries

end Datum

/-! ## Parts of a configuration -/

/-- The values that other tools keep with a project. -/
def Project.extensionValues (project : Project) : List Json :=
  (project.extensions.map fun extensions => extensions.entries.map Prod.snd).getD []

/-- The values that other tools keep with the projects. -/
def Config.extensionValues (config : Config) : List Json :=
  config.projects.flatMap fun entry => entry.2.extensionValues

theorem Config.mem_extensionValues {config : Config} {entry : String × Project} {value : Json}
    (hentry : entry ∈ config.projects) (hvalue : value ∈ entry.2.extensionValues) :
    value ∈ config.extensionValues :=
  List.mem_flatMap.mpr ⟨entry, hentry, hvalue⟩

namespace Datum

theorem schema?_toJson (schema : Schema) : schema.toJson.datum.schema? = some schema := by
  cases schema with
  | path source => rfl
  | paths sources =>
    have hstrings : (itemData (sources.map Json.string)).mapM string? = some sources := by
      rw [itemData_eq_map, List.map_map]
      exact mapM_map_of_some fun _ _ => rfl
    exact congrArg (Option.map Schema.paths) hstrings

theorem explorer?_toJson (explorer : Explorer) : explorer.toJson.datum.explorer? = some explorer :=
  rfl

theorem extensions?_object (extensions : Dictionary Json)
    (h : ∀ entry ∈ extensions.entries, entry.2.everywhere hasUniqueKeys = true) :
    (Json.object extensions.entries).datum.extensions? = some (some extensions) := by
  have hread := @dictionary?_object _ json? id extensions fun entry hentry =>
    json?_datum entry.2 (h entry hentry)
  rw [show (fun entry : String × Json => (entry.1, id entry.2)) = id from rfl, List.map_id] at hread
  exact congrArg (Option.map some) hread

/-- The fields of a project are read one by one, and extensions that are absent are none. -/
theorem project?_object (schema : Schema) (explorer : Explorer) (extensions : Option Json) :
    (Json.object ([("schema", schema.toJson), ("explorer", explorer.toJson)] ++
      (extensions.map ("extensions", ·)).toList)).datum.project? = do
    return ⟨← schema.toJson.datum.schema?, ← explorer.toJson.datum.explorer?,
      ← (extensions.map datum).elim (some none) extensions?⟩ := by
  cases extensions <;> rfl

/-- A project comes back from what is written for it. -/
theorem project?_toJson (project : Project)
    (h : ∀ value ∈ project.extensionValues, value.everywhere hasUniqueKeys = true) :
    project.toJson.datum.project? = some project := by
  obtain ⟨schema, explorer, extensions⟩ := project
  have hextensions : ((extensions.map fun kept => Json.object kept.entries).map datum).elim
      (some none) extensions? = some extensions := by
    cases extensions with
    | none => rfl
    | some kept =>
      exact extensions?_object kept fun entry hentry => h _ (List.mem_map_of_mem hentry)
  have hread := project?_object schema explorer (extensions.map fun kept => .object kept.entries)
  rw [schema?_toJson, explorer?_toJson, hextensions, Option.map_map] at hread
  exact hread

/-- Named projects are not a single project. -/
theorem config?_object (projects : Json) :
    (Json.object [("projects", projects)]).datum.config? =
      (projects.datum.dictionary? project?).map Config.multi := rfl

/-- **A configuration comes back from what is written for it.** -/
theorem config?_toJson (config : Config)
    (h : ∀ value ∈ config.extensionValues, value.everywhere hasUniqueKeys = true) :
    config.toJson.datum.config? = some config := by
  cases config with
  | single project =>
    -- a single project is tried first
    have hproject := project?_toJson project fun value hvalue =>
      h value (Config.mem_extensionValues (List.mem_singleton.mpr rfl) hvalue)
    rw [config?, Config.toJson, hproject]
  | multi projects =>
    have hprojects := dictionary?_object projects fun entry hentry =>
      project?_toJson entry.2 fun value hvalue => h value (Config.mem_extensionValues hentry hvalue)
    -- their only member is no field of a project, which has a schema
    rw [Config.toJson, config?_object]
    exact congrArg (Option.map Config.multi) hprojects

/-! ## Configurations that were read -/

/-- The extensions of a project are absent, or were read. -/
theorem extensions?_of_project? {datum : Datum} {project : Project}
    (h : datum.project? = some project) :
    project.extensions = none ∨ ∃ source : Datum, source.extensions? = some project.extensions := by
  unfold project? at h
  split at h
  next members =>
    simp only [bind, Option.bind_eq_some_iff] at h
    obtain ⟨fields, -, h⟩ := h
    split at h
    next schema explorer extensions =>
      simp only [Option.bind_eq_some_iff] at h
      obtain ⟨schema, -, explorer, -, kept, hkept, hproject⟩ := h
      obtain rfl := Option.some.inj hproject
      cases extensions with
      | none => exact Or.inl (Option.some.inj hkept).symm
      | some source => exact Or.inr ⟨source, hkept⟩
    next => cases h
  next schema explorer extensions =>
    simp only [bind, Option.bind_eq_some_iff] at h
    obtain ⟨schema, -, explorer, -, kept, hkept, hproject⟩ := h
    obtain rfl := Option.some.inj hproject
    exact Or.inr ⟨extensions, hkept⟩
  next => cases h

theorem hasUniqueKeys_of_extensions? {datum : Datum} {kept : Dictionary Json}
    (h : datum.extensions? = some (some kept)) {entry : String × Json}
    (hentry : entry ∈ kept.entries) : entry.2.everywhere hasUniqueKeys = true := by
  unfold extensions? at h
  split at h
  next => cases h
  next =>
    obtain ⟨read, hread, hkept⟩ := Option.map_eq_some_iff.mp h
    obtain rfl := Option.some.inj hkept
    obtain ⟨source, hsource⟩ := exists_of_mem_dictionary? hread hentry
    exact everywhere_of_json? source hsource

theorem hasUniqueKeys_of_project? {datum : Datum} {project : Project}
    (h : datum.project? = some project) {value : Json} (hvalue : value ∈ project.extensionValues) :
    value.everywhere hasUniqueKeys = true := by
  rw [Project.extensionValues] at hvalue
  rcases extensions?_of_project? h with hnone | ⟨source, hsource⟩
  · simp [hnone] at hvalue
  · cases hkept : project.extensions with
    | none => simp [hkept] at hvalue
    | some kept =>
      rw [hkept] at hvalue hsource
      obtain ⟨entry, hentry, rfl⟩ := List.mem_map.mp hvalue
      exact hasUniqueKeys_of_extensions? hsource hentry

/-- Named projects were read one by one. -/
theorem dictionary?_of_projects? {datum : Datum} {projects : Dictionary Project}
    (h : datum.projects? = some projects) :
    ∃ source : Datum, source.dictionary? project? = some projects := by
  unfold projects? at h
  split at h
  next members =>
    simp only [bind, Option.bind_eq_some_iff] at h
    obtain ⟨fields, -, h⟩ := h
    split at h
    next source => exact ⟨source, h⟩
    next => cases h
  next => cases h

/-- **The values that other tools keep have unique keys if the configuration was read from data.** -/
theorem hasUniqueKeys_of_config? {datum : Datum} {config : Config} (h : datum.config? = some config)
    {value : Json} (hvalue : value ∈ config.extensionValues) :
    value.everywhere hasUniqueKeys = true := by
  obtain ⟨entry, hentry, hkept⟩ := List.mem_flatMap.mp hvalue
  unfold config? at h
  split at h
  next project hproject =>
    obtain rfl := Option.some.inj h
    obtain rfl := List.mem_singleton.mp hentry
    exact hasUniqueKeys_of_project? hproject hkept
  next =>
    obtain ⟨projects, hprojects, rfl⟩ := Option.map_eq_some_iff.mp h
    obtain ⟨source, hsource⟩ := dictionary?_of_projects? hprojects
    obtain ⟨datum, hdatum⟩ := exists_of_mem_dictionary? hsource hentry
    exact hasUniqueKeys_of_project? hdatum hkept

end Datum

end QueryLocator
