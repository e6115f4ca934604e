import Mathlib.Data.List.Induction
import QueryLocator.Config.Datum
import QueryLocator.Proofs.JsonText

/-! # JSON values as plain data, and back

Objects of plain data may have a key twice; where they become JSON values the last value of a key
counts.  What becomes of plain data therefore has unique keys (`Datum.everywhere_of_json?`), and a
value with unique keys comes back from its data unchanged (`json?_datum`).
-/
namespace QueryLocator

namespace Json

/-- Whether no key of an object comes twice. -/
def hasUniqueKeys : Json → Bool
  | object members => decide (members.map Prod.fst).Nodup
  | _ => true

theorem itemsEverywhere_iff {test : Json → Bool} {items : List Json} :
    itemsEverywhere test items = true ↔ ∀ item ∈ items, item.everywhere test = true := by
  induction items with
  | nil => simp [itemsEverywhere]
  | cons item items ih => simp [itemsEverywhere, ih]

theorem membersEverywhere_iff {test : Json → Bool} {members : List (String × Json)} :
    membersEverywhere test members = true ↔ ∀ member ∈ members, member.2.everywhere test = true := by
  induction members with
  | nil => simp [membersEverywhere]
  | cons member members ih => simp [membersEverywhere, ih]

theorem itemsNesting_le_iff {items : List Json} {depth : Nat} :
    itemsNesting items ≤ depth ↔ ∀ item ∈ items, item.nesting ≤ depth := by
  induction items with
  | nil => simp [itemsNesting]
  | cons item items ih => rw [itemsNesting, Nat.max_le, ih, List.forall_mem_cons]

/-! ## Unique keys -/

section Unique
variable {α : Type} {key : String} {value : α} {members : List (String × α)}

/-- A new key is put at the end. -/
theorem put_of_not_mem (h : key ∉ members.map Prod.fst) :
    put key value members = members ++ [(key, value)] := by
  induction members with
  | nil => rfl
  | cons member members ih =>
    obtain ⟨found, old⟩ := member
    simp only [List.map_cons, List.mem_cons, not_or] at h
    rw [put, if_neg (Ne.symm h.1), ih h.2, List.cons_append]

/-- A key that is there keeps its place. -/
theorem keys_put_of_mem (h : key ∈ members.map Prod.fst) :
    (put key value members).map Prod.fst = members.map Prod.fst := by
  induction members with
  | nil => simp at h
  | cons member members ih =>
    obtain ⟨found, old⟩ := member
    simp only [put]
    split
    next heq => simp [heq]
    next hne =>
      have hmem : key ∈ members.map Prod.fst := by
        rcases List.mem_cons.mp h with heq | hmem
        · exact absurd heq.symm hne
        · exact hmem
      simp [ih hmem]

theorem nodup_put (h : (members.map Prod.fst).Nodup) :
    ((put key value members).map Prod.fst).Nodup := by
  by_cases hmem : key ∈ members.map Prod.fst
  · rwa [keys_put_of_mem hmem]
  · rw [put_of_not_mem hmem, List.map_append]
    refine List.nodup_append.mpr ⟨h, by simp, ?_⟩
    rintro a ha b hb rfl
    rw [List.map_singleton, List.mem_singleton] at hb
    rw [hb] at ha
    exact hmem ha

theorem mem_put {member : String × α} (h : member ∈ put key value members) :
    member = (key, value) ∨ member ∈ members := by
  induction members with
  | nil => simpa [put] using h
  | cons first members ih =>
    obtain ⟨found, old⟩ := first
    simp only [put] at h
    split at h
    · rcases List.mem_cons.mp h with h | h
      · exact Or.inl h
      · exact Or.inr (List.mem_cons_of_mem _ h)
    · rcases List.mem_cons.mp h with h | h
      · exact Or.inr (h ▸ List.mem_cons_self ..)
      · exact (ih h).imp_right (List.mem_cons_of_mem _)

/-- The last member is put in behind the others. -/
theorem unique_concat (members : List (String × α)) (member : String × α) :
    unique (members ++ [member]) = put member.1 member.2 (unique members) := by
  simp [unique]

theorem nodup_unique (members : List (String × α)) : ((unique members).map Prod.fst).Nodup := by
  induction members using List.reverseRecOn with
  | nil => simp [unique]
  | append_singleton members member ih =>
    rw [unique_concat]
    exact nodup_put ih

theorem mem_unique {member : String × α} (h : member ∈ unique members) : member ∈ members := by
  induction members using List.reverseRecOn with
  | nil => simp [unique] at h
  | append_singleton members last ih =>
    rw [unique_concat] at h
    rcases mem_put h with rfl | h
    · simp
    · exact List.mem_append_left _ (ih h)

/-- Members whose keys are unique stay as they are. -/
theorem unique_of_nodup (h : (members.map Prod.fst).Nodup) : unique members = members := by
  -- from the end, since members are put in from the front
  induction members using List.reverseRecOn with
  | nil => rfl
  | append_singleton members last ih =>
    rw [List.map_append, List.nodup_append] at h
    obtain ⟨hfront, -, hapart⟩ := h
    have hnew : last.1 ∉ members.map Prod.fst := fun hmem => hapart _ hmem _ (by simp) rfl
    rw [unique_concat, ih hfront, put_of_not_mem hnew]

end Unique

/-! ## There and back -/

mutual

/-- **A value with unique keys comes back from its data.** -/
theorem json?_datum (value : Json) (h : value.everywhere hasUniqueKeys = true) :
    value.datum.json? = some value := by
  match value with
  | null | boolean _ | number (.integer _) | number (.float _ _) | string _ => rfl
  | array items =>
    simp only [everywhere, Bool.and_eq_true] at h
    rw [datum, Datum.json?, jsonItems?_itemData items h.2]
    rfl
  | object members =>
    simp only [everywhere, Bool.and_eq_true, hasUniqueKeys, decide_eq_true_eq] at h
    rw [datum, Datum.json?, jsonMembers?_memberData members h.2, Option.map_some, unique_of_nodup h.1]

theorem jsonItems?_itemData (items : List Json)
    (h : itemsEverywhere hasUniqueKeys items = true) :
    Datum.jsonItems? (itemData items) = some items := by
  match items with
  | [] => rfl
  | item :: items =>
    simp only [itemsEverywhere, Bool.and_eq_true] at h
    rw [itemData, Datum.jsonItems?, json?_datum item h.1, jsonItems?_itemData items h.2]

theorem jsonMembers?_memberData (members : List (String × Json))
    (h : membersEverywhere hasUniqueKeys members = true) :
    Datum.jsonMembers? (memberData members) = some members := by
  match members with
  | [] => rfl
  | (key, value) :: members =>
    simp only [membersEverywhere, Bool.and_eq_true] at h
    rw [memberData, Datum.jsonMembers?, json?_datum value h.1, jsonMembers?_memberData members h.2]

end

end Json

namespace Datum

open Json

mutual

/-- **What plain data become has unique keys.** -/
theorem everywhere_of_json? (datum : Datum) {value : Json} (h : datum.json? = some value) :
    value.everywhere hasUniqueKeys = true := by
  match datum with
  | null | boolean _ | integer _ | string _ | float none | float (some (_, _)) =>
    obtain rfl := Option.some.inj h
    rfl
  | sequence items =>
    rw [json?, Option.map_eq_some_iff] at h
    obtain ⟨found, hfound, rfl⟩ := h
    simp only [everywhere, hasUniqueKeys, Bool.true_and]
    exact itemsEverywhere_of_jsonItems? items hfound
  | map members =>
    rw [json?, Option.map_eq_some_iff] at h
    obtain ⟨found, hfound, rfl⟩ := h
    have hmembers := membersEverywhere_iff.mp (membersEverywhere_of_jsonMembers? members hfound)
    simp only [everywhere, hasUniqueKeys, Bool.and_eq_true, decide_eq_true_eq]
    exact ⟨nodup_unique found,
      membersEverywhere_iff.mpr fun member hmember => hmembers member (mem_unique hmember)⟩

theorem itemsEverywhere_of_jsonItems? (items : List Datum) {found : List Json}
    (h : jsonItems? items = some found) : itemsEverywhere hasUniqueKeys found = true := by
  match items with
  | [] =>
    obtain rfl := Option.some.inj h
    rfl
  | item :: items =>
    rw [jsonItems?] at h
    split at h
    next first others hfirst hothers =>
      obtain rfl := Option.some.inj h
      simp only [itemsEverywhere, Bool.and_eq_true]
      exact ⟨everywhere_of_json? item hfirst, itemsEverywhere_of_jsonItems? items hothers⟩
    next => cases h

theorem membersEverywhere_of_jsonMembers? (members : List (Datum × Datum))
    {found : List (String × Json)} (h : jsonMembers? members = some found) :
    membersEverywhere hasUniqueKeys found = true := by
  match members with
  | [] =>
    obtain rfl := Option.some.inj h
    rfl
  | (string key, value) :: members =>
    rw [jsonMembers?] at h
    split at h
    next first others hfirst hothers =>
      obtain rfl := Option.some.inj h
      simp only [membersEverywhere, Bool.and_eq_true]
      exact ⟨everywhere_of_json? value hfirst, membersEverywhere_of_jsonMembers? members hothers⟩
    next => cases h

end

end Datum
end QueryLocator
