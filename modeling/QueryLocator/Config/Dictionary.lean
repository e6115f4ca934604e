/-! # Dictionaries

Values under names, each name at most once, in increasing order of the names.  Names are compared
character by character, which is also the order of their bytes in UTF-8.
-/
namespace QueryLocator

/-- Values under names in increasing order. -/
structure Dictionary (α : Type) where
  entries : List (String × α)
  sorted : entries.Pairwise fun a b => a.1 < b.1

namespace Dictionary

variable {α : Type}

instance [DecidableEq α] : DecidableEq (Dictionary α) := fun a b =>
  decidable_of_iff (a.entries = b.entries) <| by
    cases a
    cases b
    simp

/-- The dictionary without entries. -/
def empty : Dictionary α :=
  ⟨[], .nil⟩

/-- Puts a value under a name in a sorted list; a value that is there already is replaced. -/
def insertEntry (name : String) (value : α) : List (String × α) → List (String × α)
  | [] => [(name, value)]
  | (found, old) :: rest =>
    if name < found then (name, value) :: (found, old) :: rest
    else if name = found then (name, value) :: rest
    else (found, old) :: insertEntry name value rest

theorem mem_insertEntry {name : String} {value : α} {entries : List (String × α)}
    {entry : String × α} (h : entry ∈ insertEntry name value entries) :
    entry = (name, value) ∨ entry ∈ entries := by
  induction entries with
  | nil => simpa [insertEntry] using h
  | cons head rest ih =>
    obtain ⟨found, old⟩ := head
    simp only [insertEntry] at h
    split at h
    · simpa using h
    · split at h
      · rcases List.mem_cons.mp h with h | h
        · exact .inl h
        · exact .inr (List.mem_cons_of_mem _ h)
      · rcases List.mem_cons.mp h with h | h
        · exact .inr (h ▸ List.mem_cons_self ..)
        · exact (ih h).imp_right (List.mem_cons_of_mem _)

theorem insertEntry_sorted {name : String} {value : α} {entries : List (String × α)}
    (h : entries.Pairwise fun a b => a.1 < b.1) :
    (insertEntry name value entries).Pairwise fun a b => a.1 < b.1 := by
  induction entries with
  | nil => simp [insertEntry]
  | cons head rest ih =>
    obtain ⟨found, old⟩ := head
    obtain ⟨hhead, hrest⟩ := List.pairwise_cons.mp h
    simp only [insertEntry]
    split
    next hlt =>
      refine List.pairwise_cons.mpr ⟨fun entry hentry => ?_, h⟩
      rcases List.mem_cons.mp hentry with hentry | hentry
      · exact hentry ▸ hlt
      · exact Std.lt_trans hlt (hhead entry hentry)
    next hge =>
      split
      next heq => exact List.pairwise_cons.mpr ⟨fun entry hentry => heq ▸ hhead entry hentry, hrest⟩
      next hne =>
        refine List.pairwise_cons.mpr ⟨fun entry hentry => ?_, ih hrest⟩
        rcases mem_insertEntry hentry with hentry | hentry
        · subst hentry
          exact Std.lt_of_le_of_ne (Std.not_lt.mp hge) (Ne.symm hne)
        · exact hhead entry hentry

/-- Puts a value under a name; a value that is there already is replaced. -/
def insert (dictionary : Dictionary α) (name : String) (value : α) : Dictionary α :=
  ⟨insertEntry name value dictionary.entries, insertEntry_sorted dictionary.sorted⟩

/-- The dictionary of a list of entries, of which the last one for a name counts. -/
def ofList (entries : List (String × α)) : Dictionary α :=
  entries.foldl (fun dictionary (name, value) => dictionary.insert name value) empty

/-- The value under a name. -/
def get? (dictionary : Dictionary α) (name : String) : Option α :=
  (dictionary.entries.find? (·.1 = name)).map Prod.snd

/-- The names, in order. -/
def names (dictionary : Dictionary α) : List String :=
  dictionary.entries.map Prod.fst

end Dictionary
end QueryLocator
