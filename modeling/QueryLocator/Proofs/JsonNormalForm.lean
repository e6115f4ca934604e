import QueryLocator.Proofs.JsonBrackets
import QueryLocator.Proofs.JsonData
import QueryLocator.Proofs.JsonPretty

/-! # Values without repeated keys

Normalizing a value leaves each key of an object once, in the place where it comes first and with the
value that it has last (`condensed_normalize`).  Nothing else changes: a value without repeated keys is
its own normal form (`normalize_of_unique`), the brackets nest no more deeply, and the numbers are
those of the value.  The pretty text of a normal form of integers is therefore read as the normal form
(`parse_renderPretty`).
-/
namespace QueryLocator.Json

open JsonShape

/-- Values are built from items and from the values of members. -/
@[elab_as_elim]
theorem inductionOn {motive : Json → Prop} (value : Json) (null : motive .null)
    (boolean : ∀ value, motive (.boolean value)) (number : ∀ value, motive (.number value))
    (string : ∀ value, motive (.string value))
    (array : ∀ items, (∀ item ∈ items, motive item) → motive (.array items))
    (object : ∀ members, (∀ member ∈ members, motive member.2) → motive (.object members)) :
    motive value :=
  match value with
  | .null => null
  | .boolean value => boolean value
  | .number value => number value
  | .string value => string value
  | .array items => array items fun item _ =>
    inductionOn item null boolean number string array object
  | .object members => object members fun member _ =>
    inductionOn member.2 null boolean number string array object
termination_by sizeOf value
decreasing_by
  · have := List.sizeOf_lt_of_mem ‹item ∈ items›
    simp only [Json.array.sizeOf_spec]
    omega
  · have := List.sizeOf_lt_of_mem ‹member ∈ members›
    obtain ⟨key, value⟩ := member
    simp only [Json.object.sizeOf_spec, Prod.mk.sizeOf_spec] at *
    omega

/-! ## Parts of normal forms -/

theorem normalizeItems_eq_map (items : List Json) : normalizeItems items = items.map normalize := by
  induction items with
  | nil => rfl
  | cons item items ih => rw [normalizeItems, ih, List.map_cons]

theorem normalizeMembers_eq_map (members : List (String × Json)) :
    normalizeMembers members = members.map fun member => (member.1, member.2.normalize) := by
  induction members with
  | nil => rfl
  | cons member members ih => rw [normalizeMembers, ih, List.map_cons]

theorem keys_normalizeMembers (members : List (String × Json)) :
    (normalizeMembers members).map Prod.fst = members.map Prod.fst := by
  rw [normalizeMembers_eq_map, List.map_map]
  rfl

/-- What stands in a normal form is the normal form of a member. -/
theorem exists_of_mem_unique_normalizeMembers {members : List (String × Json)}
    {member : String × Json} (h : member ∈ unique (normalizeMembers members)) :
    ∃ source ∈ members, member.2 = source.2.normalize := by
  have hmem := mem_unique h
  rw [normalizeMembers_eq_map] at hmem
  obtain ⟨source, hsource, rfl⟩ := List.mem_map.mp hmem
  exact ⟨source, hsource, rfl⟩

theorem membersNesting_le_iff {members : List (String × Json)} {depth : Nat} :
    membersNesting members ≤ depth ↔ ∀ member ∈ members, member.2.nesting ≤ depth := by
  induction members with
  | nil => simp [membersNesting]
  | cons member members ih => rw [membersNesting, Nat.max_le, ih, List.forall_mem_cons]

theorem nesting_normalize_le (value : Json) : value.normalize.nesting ≤ value.nesting := by
  induction value using inductionOn with
  | null | boolean | number | string => exact Nat.le_refl _
  | array items ih =>
    have hitems := itemsNesting_le_iff.mp (Nat.le_refl (itemsNesting items))
    refine Nat.succ_le_succ (itemsNesting_le_iff.mpr ?_)
    rw [normalizeItems_eq_map]
    intro item hitem
    obtain ⟨source, hsource, rfl⟩ := List.mem_map.mp hitem
    exact Nat.le_trans (ih source hsource) (hitems source hsource)
  | object members ih =>
    have hmembers := membersNesting_le_iff.mp (Nat.le_refl (membersNesting members))
    refine Nat.succ_le_succ (membersNesting_le_iff.mpr ?_)
    intro member hmember
    obtain ⟨source, hsource, heq⟩ := exists_of_mem_unique_normalizeMembers hmember
    rw [heq]
    exact Nat.le_trans (ih source hsource) (hmembers source hsource)

theorem isIntegral_normalize (value : Json) (h : value.everywhere isIntegral = true) :
    value.normalize.everywhere isIntegral = true := by
  induction value using inductionOn with
  | null | boolean | number | string => exact h
  | array items ih =>
    simp only [everywhere, isIntegral, Bool.true_and, itemsEverywhere_iff] at h
    simp only [normalize, everywhere, isIntegral, Bool.true_and, itemsEverywhere_iff,
      normalizeItems_eq_map]
    intro item hitem
    obtain ⟨source, hsource, rfl⟩ := List.mem_map.mp hitem
    exact ih source hsource (h source hsource)
  | object members ih =>
    simp only [everywhere, isIntegral, Bool.true_and, membersEverywhere_iff] at h
    simp only [normalize, everywhere, isIntegral, Bool.true_and, membersEverywhere_iff]
    intro member hmember
    obtain ⟨source, hsource, heq⟩ := exists_of_mem_unique_normalizeMembers hmember
    rw [heq]
    exact ih source hsource (h source hsource)

/-! ## Unique keys -/

theorem hasUniqueKeys_normalize (value : Json) :
    value.normalize.everywhere hasUniqueKeys = true := by
  induction value using inductionOn with
  | null | boolean | number | string => rfl
  | array items ih =>
    simp only [normalize, everywhere, hasUniqueKeys, Bool.true_and, itemsEverywhere_iff,
      normalizeItems_eq_map]
    intro item hitem
    obtain ⟨source, hsource, rfl⟩ := List.mem_map.mp hitem
    exact ih source hsource
  | object members ih =>
    simp only [normalize, everywhere, hasUniqueKeys, Bool.and_eq_true, decide_eq_true_eq,
      membersEverywhere_iff]
    refine ⟨nodup_unique _, ?_⟩
    intro member hmember
    obtain ⟨source, hsource, heq⟩ := exists_of_mem_unique_normalizeMembers hmember
    rw [heq]
    exact ih source hsource

/-- **A value without repeated keys is its own normal form.** -/
theorem normalize_of_unique (value : Json) (h : value.everywhere hasUniqueKeys = true) :
    value.normalize = value := by
  induction value using inductionOn with
  | null | boolean | number | string => rfl
  | array items ih =>
    simp only [everywhere, Bool.and_eq_true, itemsEverywhere_iff] at h
    have hitems : items.map normalize = items.map id :=
      List.map_congr_left fun item hitem => ih item hitem (h.2 item hitem)
    rw [normalize, normalizeItems_eq_map, hitems, List.map_id]
  | object members ih =>
    simp only [everywhere, hasUniqueKeys, Bool.and_eq_true, decide_eq_true_eq,
      membersEverywhere_iff] at h
    have hmembers : (members.map fun member => (member.1, member.2.normalize)) = members.map id :=
      List.map_congr_left fun member hmember =>
        Prod.ext rfl (ih member hmember (h.2 member hmember))
    rw [normalize, normalizeMembers_eq_map, hmembers, List.map_id, unique_of_nodup h.1]

theorem normalize_normalize (value : Json) : value.normalize.normalize = value.normalize :=
  normalize_of_unique _ (hasUniqueKeys_normalize value)

/-! ## The last value of each key -/

/-- The value of a key is the last one that was put under it. -/
theorem eq_of_mem_put {α : Type} {key : String} {value found : α} {members : List (String × α)}
    (hnodup : (members.map Prod.fst).Nodup) (h : (key, found) ∈ put key value members) :
    found = value := by
  induction members with
  | nil => simpa [put] using h
  | cons member members ih =>
    obtain ⟨first, old⟩ := member
    obtain ⟨hfirst, hmore⟩ := List.nodup_cons.mp hnodup
    rw [put] at h
    split at h
    next heq =>
      rcases List.mem_cons.mp h with h | h
      · exact (Prod.mk.inj h).2
      · exact absurd (List.mem_map_of_mem h) (heq ▸ hfirst)
    next hne =>
      rcases List.mem_cons.mp h with h | h
      · exact absurd (Prod.mk.inj h).1.symm hne
      · exact ih hmore h

theorem eq_of_mem_unique {α : Type} {key : String} {value found : α} {before after : List (String × α)}
    (hlast : key ∉ after.map Prod.fst) (h : (key, found) ∈ unique (before ++ (key, value) :: after)) :
    found = value := by
  induction after using List.reverseRecOn with
  | nil =>
    rw [unique_concat] at h
    exact eq_of_mem_put (nodup_unique before) h
  | append_singleton after member ih =>
    rw [List.map_append, List.mem_append, not_or] at hlast
    have hsplit : before ++ (key, value) :: (after ++ [member]) =
        (before ++ (key, value) :: after) ++ [member] := by simp
    rw [hsplit, unique_concat] at h
    rcases mem_put h with heq | h
    · have hkey : key = member.1 := (Prod.mk.inj heq).1
      exact absurd (List.mem_singleton.mpr hkey) hlast.2
    · exact ih hlast.1 h

/-- The keys of an object come in the order of their first places. -/
theorem keys_unique {α : Type} (members : List (String × α)) :
    (unique members).map Prod.fst = (members.map Prod.fst).eraseDups := by
  induction members using List.reverseRecOn with
  | nil => rfl
  | append_singleton members member ih =>
    rw [unique_concat, List.map_append, List.map_singleton, List.eraseDups_append, ← ih]
    by_cases hmem : member.1 ∈ members.map Prod.fst
    · have hold : member.1 ∈ (unique members).map Prod.fst := by rwa [ih, List.mem_eraseDups]
      have hremoved : [member.1].removeAll (members.map Prod.fst) = [] := by
        simpa [List.removeAll] using hmem
      rw [keys_put_of_mem hold, hremoved, List.eraseDups_nil, List.append_nil]
    · have hnew : member.1 ∉ (unique members).map Prod.fst := by rwa [ih, List.mem_eraseDups]
      have hkept : [member.1].removeAll (members.map Prod.fst) = [member.1] := by
        simpa [List.removeAll] using hmem
      rw [put_of_not_mem hnew, hkept, List.map_append, List.map_singleton]
      rfl

/-- Two values that are the same but for repeated keys: of each key of an object the second value has
one member, in the order in which the keys come first, with what the first value has last. -/
inductive Condensed : Json → Json → Prop
  | null : Condensed .null .null
  | boolean (value : Bool) : Condensed (.boolean value) (.boolean value)
  | number (value : JsonNumber) : Condensed (.number value) (.number value)
  | string (value : String) : Condensed (.string value) (.string value)
  | array {items items' : List Json} (hlength : items'.length = items.length)
      (hitems : ∀ pair ∈ items.zip items', Condensed pair.1 pair.2) :
      Condensed (.array items) (.array items')
  | object {members members' : List (String × Json)}
      (hkeys : members'.map Prod.fst = (members.map Prod.fst).eraseDups)
      (hvalues : ∀ member ∈ members', ∀ before value after,
        members = before ++ (member.1, value) :: after → member.1 ∉ after.map Prod.fst →
          Condensed value member.2) :
      Condensed (.object members) (.object members')

/-- **A normal form has no repeated keys and is otherwise the same.** -/
theorem condensed_normalize (value : Json) : Condensed value value.normalize := by
  induction value using inductionOn with
  | null => exact .null
  | boolean value => exact .boolean value
  | number value => exact .number value
  | string value => exact .string value
  | array items ih =>
    rw [normalize, normalizeItems_eq_map]
    refine .array (List.length_map _) ?_
    intro pair hpair
    obtain ⟨n, hn, rfl⟩ := List.mem_iff_getElem.mp hpair
    rw [List.getElem_zip, List.getElem_map]
    exact ih _ (List.getElem_mem _)
  | object members ih =>
    rw [normalize]
    refine .object ?_ ?_
    · rw [keys_unique, keys_normalizeMembers]
    · rintro ⟨key, found⟩ hmember before value after rfl hlast
      have hvalue : found = value.normalize := by
        rw [normalizeMembers_eq_map, List.map_append, List.map_cons] at hmember
        refine eq_of_mem_unique ?_ hmember
        rw [List.map_map]
        exact hlast
      rw [hvalue]
      exact ih (key, value) (by simp)

/-! ## Reading and writing -/

section Parts
variable {holds : Json → Prop} {value : JsonReader Json}
  (hvalue : ∀ {text json rest}, value text = .ok (json, rest) → holds json)
include hvalue

theorem forall_of_readItems {bound : Nat} {first : Bool} {text rest : List Char} {items : List Json}
    (h : readItems value bound first text = .ok (items, rest)) : ∀ item ∈ items, holds item := by
  induction bound generalizing first text items with
  | zero => cases h
  | succ bound ih =>
    obtain ⟨rfl, -⟩ | ⟨part, item, behind, more, -, hitem, hmore, rfl⟩ := readItems_cases h
    · simp
    · exact List.forall_mem_cons.mpr ⟨hvalue hitem, ih hmore⟩

theorem forall_of_readMembers {bound : Nat} {first : Bool} {text rest : List Char}
    {members : List (String × Json)} (h : readMembers value bound first text = .ok (members, rest)) :
    ∀ member ∈ members, holds member.2 := by
  induction bound generalizing first text members with
  | zero => cases h
  | succ bound ih =>
    obtain ⟨rfl, -⟩ | ⟨keyText, key, colon, part, found, behind, more, -, -, -, hfound, hmore, rfl⟩ :=
      readMembers_cases h
    · simp
    · exact List.forall_mem_cons.mpr ⟨hvalue hfound, ih hmore⟩

end Parts

/-- A value that is read has no more brackets open than may be. -/
theorem nesting_of_readValue {depth : Nat} {text rest : List Char} {json : Json}
    (h : readValue depth text = .ok (json, rest)) : json.nesting ≤ depth := by
  induction depth generalizing text rest json with
  | zero =>
    obtain ⟨c, behind, -, ⟨-, inner, _, hdepth, -⟩ | ⟨-, inner, _, hdepth, -⟩ | ⟨-, -, hleaf⟩⟩ :=
      readValue_cases h
    · cases hdepth
    · cases hdepth
    · cases leafForm_of_readLeaf hleaf <;> exact Nat.le_refl 0
  | succ depth ih =>
    obtain ⟨c, behind, -, ⟨-, inner, items, hdepth, rfl, hitems⟩ |
      ⟨-, inner, members, hdepth, rfl, hmembers⟩ | ⟨-, -, hleaf⟩⟩ := readValue_cases h
    · obtain rfl : inner = depth := by omega
      exact Nat.succ_le_succ (itemsNesting_le_iff.mpr (forall_of_readItems ih hitems))
    · obtain rfl : inner = depth := by omega
      exact Nat.succ_le_succ (membersNesting_le_iff.mpr (forall_of_readMembers ih hmembers))
    · cases leafForm_of_readLeaf hleaf <;> exact Nat.zero_le _

/-- **The pretty text of a normal form is read as the normal form.** -/
theorem parse_renderPretty {value : Json} (hintegral : value.everywhere isIntegral = true)
    (hnesting : value.nesting ≤ nestingLimit) : Json.parse value.renderPretty = .ok value := by
  have hread := readValue_prettyAt value 0 hintegral hnesting endsNumber_nil
  rw [List.append_nil] at hread
  refine parse_eq_ok_iff.mpr ⟨[], ?_, rfl⟩
  rw [renderPretty, String.toList_ofList]
  exact hread

end QueryLocator.Json
