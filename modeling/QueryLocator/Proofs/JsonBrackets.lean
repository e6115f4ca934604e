import Mathlib.Data.List.DropRight
import QueryLocator.Proofs.JsonSkipping

/-! # What is read can be passed over

Wherever a value can be read it can be passed over as well, and both stop at the same place
(`skipValue_of_readValue`).

Reading goes down into a value and comes back, passing over keeps a list of the brackets that are
open.  One value is passed over when what is left to be done is to go on behind it, with the same
brackets open (`Passes`).
-/
namespace QueryLocator.JsonShape

open Json JsonFailure

/-! ## Brackets

What passing over does behind a bracket or a value is `skipOnward`.  Reading comes back to the same
place after a value, and after its last item or member.
-/

/-- The beginning of a value that is passed over: the brackets that are open then, whether a comma may
follow, and the rest of the text. -/
def skipHead (opened : List Opened) (text : List Char) :
    Except JsonFailure (List Opened × Bool × List Char) :=
  match skipSpace text with
  | [] => here .endInValue []
  | '[' :: rest => .ok (Opened.array :: opened, false, rest)
  | '\x7b' :: rest => .ok (Opened.object :: opened, false, rest)
  | c :: rest => (skipLeaf c rest).map fun rest => (opened, true, rest)

theorem skipHead_leaf {c : Char} {text rest : List Char} (hspace : skipSpace text = c :: rest)
    (harray : c ≠ '[') (hobject : c ≠ '\x7b') (opened : List Opened) :
    skipHead opened text = (skipLeaf c rest).map fun rest => (opened, true, rest) := by
  rw [skipHead, hspace]
  split
  next heq => cases heq
  next heq => exact absurd (List.cons.inj heq).1 harray
  next heq => exact absurd (List.cons.inj heq).1 hobject
  next heq =>
    obtain ⟨rfl, rfl⟩ := List.cons.inj heq
    rfl

/-- Goes on behind a value or an opening bracket. -/
def skipOnward (bound : Nat) (comma : Bool) (opened : List Opened) (text : List Char) :
    Except JsonFailure (List Char) := do
  match ← skipClosings comma opened (text.length + 1) text with
  | (.done, rest) => return rest
  | (.inside opened, rest) =>
    let rest ← if opened.head? = some .object then skipKey rest else .ok rest
    skipParts bound opened rest

theorem skipParts_succ (bound : Nat) (opened : List Opened) (text : List Char) :
    skipParts (bound + 1) opened text = skipHead opened text >>= fun (opened, comma, rest) =>
      skipOnward bound comma opened rest := by
  cases hspace : skipSpace text with
  | nil =>
    rw [skipParts, skipHead, hspace]
    rfl
  | cons c rest =>
    by_cases harray : c = '['
    · subst harray
      rw [skipParts, skipHead, hspace]
      rfl
    · by_cases hobject : c = '\x7b'
      · subst hobject
        rw [skipParts, skipHead, hspace]
        rfl
      · rw [skipHead_leaf hspace harray hobject, skipParts, hspace]
        split
        next heq => cases heq
        next heq => exact absurd (List.cons.inj heq).1 harray
        next heq => exact absurd (List.cons.inj heq).1 hobject
        next heq =>
          obtain ⟨rfl, rfl⟩ := List.cons.inj heq
          rfl

theorem skipOnward_done (bound : Nat) (comma : Bool) (text : List Char) :
    skipOnward bound comma [] text = .ok text := rfl

/-- Where the white space in front ends. -/
theorem skipSpace_skipSpace (text : List Char) : skipSpace (skipSpace text) = skipSpace text :=
  List.dropWhile_idempotent ..

theorem readValue_skipSpace (depth : Nat) (text : List Char) :
    readValue depth (skipSpace text) = readValue depth text := by
  unfold readValue
  rw [skipSpace_skipSpace]

/-- No bracket closes more than once, so a bound above the length of the text does not matter. -/
theorem skipClosings_bound {comma : Bool} {opened : List Opened} {bound bound' : Nat}
    {text : List Char} (h : text.length < bound) (h' : text.length < bound') :
    skipClosings comma opened bound text = skipClosings comma opened bound' text := by
  induction opened generalizing comma bound bound' text with
  | nil => simp [skipClosings]
  | cons inner outer ih =>
    obtain ⟨bound, rfl⟩ : ∃ n, bound = n + 1 := ⟨bound - 1, by omega⟩
    obtain ⟨bound', rfl⟩ : ∃ n, bound' = n + 1 := ⟨bound' - 1, by omega⟩
    rw [skipClosings, skipClosings]
    split
    next => rfl
    next c rest hspace =>
      have hlength := length_of_skipSpace hspace
      rw [@ih true bound bound' rest (by omega) (by omega)]

/-- Goes on in front of an item or a member. -/
def skipInside (bound : Nat) (opened : List Opened) (text : List Char) :
    Except JsonFailure (List Char) := do
  let rest ← if opened.head? = some .object then skipKey text else .ok text
  skipParts bound opened rest

section Onward
variable {bound : Nat} {inner : Opened} {outer : List Opened} {text rest : List Char}

theorem skipOnward_closing (comma : Bool) (h : skipSpace text = inner.closing :: rest) :
    skipOnward bound comma (inner :: outer) text = skipOnward bound true outer rest := by
  have hlength := length_of_skipSpace h
  have hcomma : (inner.closing == ',' && comma) = false := by cases inner <;> rfl
  have hclosings : skipClosings comma (inner :: outer) (text.length + 1) text =
      skipClosings true outer (rest.length + 1) rest := by
    rw [skipClosings, h]
    dsimp only
    rw [hcomma, if_neg Bool.false_ne_true, if_pos (beq_self_eq_true _)]
    exact skipClosings_bound hlength (Nat.lt_succ_self _)
  rw [skipOnward, hclosings]
  rfl

theorem skipOnward_comma (h : skipSpace text = ',' :: rest) :
    skipOnward bound true (inner :: outer) text = skipInside bound (inner :: outer) rest := by
  have hclosings : skipClosings true (inner :: outer) (text.length + 1) text =
      .ok (.inside (inner :: outer), rest) := by
    rw [skipClosings, h]
    rfl
  rw [skipOnward, hclosings]
  rfl

theorem skipOnward_first {c : Char} (h : skipSpace text = c :: rest) (hc : c ≠ inner.closing) :
    skipOnward bound false (inner :: outer) text = skipInside bound (inner :: outer) (c :: rest) := by
  have hclosings : skipClosings false (inner :: outer) (text.length + 1) text =
      .ok (.inside (inner :: outer), c :: rest) := by
    rw [skipClosings, h]
    simp [hc]
  rw [skipOnward, hclosings]
  rfl

/-- A key that can be read is passed over. -/
theorem skipInside_key {behind behind' : List Char} {key : String}
    (h : skipSpace text = '"' :: rest) (hkey : readString rest = .ok (key, behind))
    (hcolon : readColon behind = .ok ((), behind')) :
    skipInside bound (.object :: outer) text = skipParts bound (.object :: outer) behind' := by
  have hskip : skipKey text = .ok behind' := by
    unfold skipKey
    rw [h]
    simp [skipString_of_readString hkey, hcolon, bind, Except.bind, pure, Except.pure]
  unfold skipInside
  simp [hskip, bind, Except.bind]

end Onward

/-! ## Separators -/

section Separators
variable {first : Bool} {text rest : List Char}

/-- Where the next item of an array begins: at once, or behind a comma. -/
theorem nextItem_cases (h : nextItem first text = .ok (true, rest)) :
    (first = true ∧ skipSpace text = rest ∧ ∃ c more, rest = c :: more ∧ c ≠ ']') ∨
      (first = false ∧ ∃ more, skipSpace text = ',' :: more ∧ skipSpace more = rest) := by
  unfold nextItem at h
  split at h
  next => cases h
  next => cases h
  next c more hclosing hspace =>
    split at h
    next hfirst =>
      obtain ⟨-, rfl⟩ := Prod.mk.inj (Except.ok.inj h)
      exact Or.inl ⟨hfirst, hspace, c, more, rfl, hclosing⟩
    next hfirst =>
      split at h
      next hcomma =>
        obtain rfl : c = ',' := by simpa using hcomma
        refine Or.inr ⟨Bool.eq_false_iff.mpr hfirst, more, hspace, ?_⟩
        split at h
        next => cases h
        next => cases h
        next => exact (Prod.mk.inj (Except.ok.inj h)).2
      next => cases h

theorem skipSpace_of_nextItem (h : nextItem first text = .ok (false, rest)) :
    skipSpace text = ']' :: rest := by
  unfold nextItem at h
  split at h
  next => cases h
  next hspace =>
    obtain ⟨-, rfl⟩ := Prod.mk.inj (Except.ok.inj h)
    exact hspace
  next =>
    split at h
    next => cases h
    next =>
      split at h
      next => split at h <;> cases h
      next => cases h

/-- What stands at the place where a key has to begin. -/
theorem eq_cons_of_key {more : Bool} (h : (match text with
      | [] => here .endInValue []
      | '"' :: rest => .ok (true, rest)
      | '\x7d' :: _ => atNext .trailingComma text
      | _ => atNext .keyNotString text) = .ok (more, rest)) : more = true ∧ text = '"' :: rest := by
  split at h
  next => cases h
  next =>
    obtain ⟨rfl, rfl⟩ := Prod.mk.inj (Except.ok.inj h)
    exact ⟨rfl, rfl⟩
  next => cases h
  next => cases h

/-- Where the next key of an object begins: at once, or behind a comma. -/
theorem nextKey_cases (h : nextKey first text = .ok (true, rest)) :
    (first = true ∧ skipSpace text = '"' :: rest) ∨
      (first = false ∧ ∃ more, skipSpace text = ',' :: more ∧ skipSpace more = '"' :: rest) := by
  unfold nextKey at h
  dsimp only at h
  split at h
  next => cases h
  next => cases h
  next c more hclosing hspace =>
    split at h
    next hfirst => exact Or.inl ⟨hfirst, hspace.trans (eq_cons_of_key h).2⟩
    next hfirst =>
      split at h
      next hcomma =>
        obtain rfl : c = ',' := by simpa using hcomma
        exact Or.inr ⟨Bool.eq_false_iff.mpr hfirst, more, hspace, (eq_cons_of_key h).2⟩
      next => cases h

theorem skipSpace_of_nextKey (h : nextKey first text = .ok (false, rest)) :
    skipSpace text = '\x7d' :: rest := by
  unfold nextKey at h
  dsimp only at h
  split at h
  next => cases h
  next hspace =>
    obtain ⟨-, rfl⟩ := Prod.mk.inj (Except.ok.inj h)
    exact hspace
  next =>
    split at h
    next => exact Bool.noConfusion (eq_cons_of_key h).1
    next =>
      split at h
      next => exact Bool.noConfusion (eq_cons_of_key h).1
      next => cases h

section Parts
variable {α : Type} {value : JsonReader α} {bound : Nat}

/-- An array ends, or an item is read and then the others. -/
theorem readItems_cases {items : List α}
    (h : readItems value (bound + 1) first text = .ok (items, rest)) :
    (items = [] ∧ nextItem first text = .ok (false, rest)) ∨
      ∃ part item behind more, nextItem first text = .ok (true, part) ∧
        value part = .ok (item, behind) ∧ readItems value bound false behind = .ok (more, rest) ∧
        items = item :: more := by
  obtain ⟨⟨more, part⟩, hnext, h⟩ := bind_eq_ok_iff.mp h
  cases more with
  | false =>
    obtain ⟨rfl, rfl⟩ := Prod.mk.inj (Except.ok.inj h)
    exact Or.inl ⟨rfl, hnext⟩
  | true =>
    obtain ⟨⟨item, behind⟩, hitem, h⟩ := bind_eq_ok_iff.mp h
    obtain ⟨⟨more, last⟩, hmore, h⟩ := bind_eq_ok_iff.mp h
    obtain ⟨rfl, rfl⟩ := Prod.mk.inj (Except.ok.inj h)
    exact Or.inr ⟨part, item, behind, more, hnext, hitem, hmore, rfl⟩

/-- An object ends, or a member is read and then the others. -/
theorem readMembers_cases {members : List (String × α)}
    (h : readMembers value (bound + 1) first text = .ok (members, rest)) :
    (members = [] ∧ nextKey first text = .ok (false, rest)) ∨
      ∃ keyText key colon part found behind more, nextKey first text = .ok (true, keyText) ∧
        readString keyText = .ok (key, colon) ∧ readColon colon = .ok ((), part) ∧
        value part = .ok (found, behind) ∧ readMembers value bound false behind = .ok (more, rest) ∧
        members = (key, found) :: more := by
  obtain ⟨⟨more, keyText⟩, hnext, h⟩ := bind_eq_ok_iff.mp h
  cases more with
  | false =>
    obtain ⟨rfl, rfl⟩ := Prod.mk.inj (Except.ok.inj h)
    exact Or.inl ⟨rfl, hnext⟩
  | true =>
    obtain ⟨⟨key, colon⟩, hkey, h⟩ := bind_eq_ok_iff.mp h
    obtain ⟨⟨⟨⟩, part⟩, hcolon, h⟩ := bind_eq_ok_iff.mp h
    obtain ⟨⟨found, behind⟩, hfound, h⟩ := bind_eq_ok_iff.mp h
    obtain ⟨⟨more, last⟩, hmore, h⟩ := bind_eq_ok_iff.mp h
    obtain ⟨rfl, rfl⟩ := Prod.mk.inj (Except.ok.inj h)
    exact Or.inr
      ⟨keyText, key, colon, part, found, behind, more, hnext, hkey, hcolon, hfound, hmore, rfl⟩

end Parts

/-- The next item, seen from both sides. -/
theorem skipOnward_of_nextItem (h : nextItem first text = .ok (true, rest)) :
    ∃ item, skipSpace item = rest ∧ item.length ≤ text.length ∧ ∀ bound outer,
      skipOnward bound (!first) (.array :: outer) text = skipParts bound (.array :: outer) item := by
  rcases nextItem_cases h with ⟨rfl, hspace, c, more, rfl, hclosing⟩ | ⟨rfl, more, hspace, rfl⟩
  · refine ⟨c :: more, ?_, length_of_skipSpace hspace, fun bound outer => ?_⟩
    · rw [← hspace, skipSpace_skipSpace]
    · exact skipOnward_first hspace hclosing
  · exact ⟨more, rfl, Nat.le_of_lt (length_of_skipSpace hspace), fun bound outer =>
      skipOnward_comma hspace⟩

/-- The next key, seen from both sides. -/
theorem skipOnward_of_nextKey (h : nextKey first text = .ok (true, rest)) :
    ∃ key, skipSpace key = '"' :: rest ∧ key.length ≤ text.length ∧ ∀ bound outer,
      skipOnward bound (!first) (.object :: outer) text =
        skipInside bound (.object :: outer) key := by
  rcases nextKey_cases h with ⟨rfl, hspace⟩ | ⟨rfl, more, hspace, hkey⟩
  · refine ⟨'"' :: rest, ?_, length_of_skipSpace hspace, fun bound outer => ?_⟩
    · rw [← hspace, skipSpace_skipSpace]
    · exact skipOnward_first hspace (by decide)
  · exact ⟨more, hkey, Nat.le_of_lt (length_of_skipSpace hspace), fun bound outer =>
      skipOnward_comma hspace⟩

end Separators

theorem length_of_readColon {text rest : List Char} (h : readColon text = .ok ((), rest)) :
    rest.length < text.length := by
  unfold readColon at h
  split at h
  next => cases h
  next hspace =>
    obtain ⟨-, rfl⟩ := Prod.mk.inj (Except.ok.inj h)
    exact length_of_skipSpace hspace
  next => cases h

/-! ## Values -/

/-- A value in front of a text is passed over: what is left to be done is to go on behind it. -/
def Passes (text rest : List Char) : Prop :=
  rest.length < text.length ∧ ∀ opened bound, text.length < bound →
    ∃ bound', rest.length < bound' ∧
      skipParts bound opened text = skipOnward bound' true opened rest

/-- The rest of a list is passed over from its next part, or from its end. -/
def PassesUpTo (inner : Opened) (comma : Bool) (text rest : List Char) : Prop :=
  rest.length < text.length ∧ ∀ outer bound, text.length < bound →
    ∃ bound', rest.length < bound' ∧
      skipOnward bound comma (inner :: outer) text = skipOnward bound' true outer rest

theorem PassesUpTo.of_closing {inner : Opened} {text rest : List Char} (comma : Bool)
    (h : skipSpace text = inner.closing :: rest) : PassesUpTo inner comma text rest := by
  have hlength := length_of_skipSpace h
  exact ⟨hlength, fun outer bound hbound =>
    ⟨bound, by omega, skipOnward_closing comma h⟩⟩

/-- A part in front of the others. -/
theorem PassesUpTo.of_part {inner : Opened} {comma : Bool} {text part behind rest : List Char}
    (hpart : Passes part behind) (hlength : part.length ≤ text.length)
    (honward : ∀ bound outer, skipOnward bound comma (inner :: outer) text =
      skipParts bound (inner :: outer) part)
    (hmore : PassesUpTo inner true behind rest) : PassesUpTo inner comma text rest := by
  obtain ⟨hbehind, hpart⟩ := hpart
  obtain ⟨hrest, hmore⟩ := hmore
  refine ⟨by omega, fun outer bound hbound => ?_⟩
  obtain ⟨bound', hbound', hskip⟩ := hpart (inner :: outer) bound (by omega)
  obtain ⟨bound'', hbound'', hskip'⟩ := hmore outer bound' hbound'
  exact ⟨bound'', hbound'', by rw [honward, hskip, hskip']⟩

/-- A value with brackets, once they have been opened. -/
theorem PassesUpTo.passes {inner : Opened} {text behind rest : List Char}
    (hhead : ∀ opened, skipHead opened text = .ok (inner :: opened, false, behind))
    (hlength : behind.length < text.length) (h : PassesUpTo inner false behind rest) :
    Passes text rest := by
  obtain ⟨hrest, h⟩ := h
  refine ⟨by omega, fun opened bound hbound => ?_⟩
  obtain ⟨bound, rfl⟩ : ∃ n, bound = n + 1 := ⟨bound - 1, by omega⟩
  rw [skipParts_succ, hhead]
  exact h opened bound (by omega)

section Lists
variable {value : JsonReader Json} {text rest : List Char} {bound : Nat} {first : Bool}

theorem passesUpTo_of_readItems {items : List Json}
    (hvalue : ∀ {text json rest}, value text = .ok (json, rest) → Passes text rest)
    (hspace : ∀ text, value (skipSpace text) = value text)
    (h : readItems value bound first text = .ok (items, rest)) :
    PassesUpTo .array (!first) text rest := by
  induction bound generalizing first text items with
  | zero => cases h
  | succ bound ih =>
    obtain ⟨rfl, hnext⟩ | ⟨part, item, behind, more, hnext, hitem, hmore, rfl⟩ := readItems_cases h
    · exact .of_closing _ (skipSpace_of_nextItem hnext)
    · obtain ⟨front, rfl, hlength, honward⟩ := skipOnward_of_nextItem hnext
      rw [hspace] at hitem
      exact .of_part (hvalue hitem) hlength honward (ih hmore)

theorem passesUpTo_of_readMembers {members : List (String × Json)}
    (hvalue : ∀ {text json rest}, value text = .ok (json, rest) → Passes text rest)
    (h : readMembers value bound first text = .ok (members, rest)) :
    PassesUpTo .object (!first) text rest := by
  induction bound generalizing first text members with
  | zero => cases h
  | succ bound ih =>
    obtain ⟨rfl, hnext⟩ | ⟨keyText, key, colon, part, found, behind, more, hnext, hkey, hcolon,
      hfound, hmore, rfl⟩ := readMembers_cases h
    · exact .of_closing _ (skipSpace_of_nextKey hnext)
    · obtain ⟨front, hfront, hlength, honward⟩ := skipOnward_of_nextKey hnext
      have hkeyLength := length_of_skipString (skipString_of_readString hkey)
      have hcolonLength := length_of_readColon hcolon
      have hfrontLength := length_of_skipSpace hfront
      refine .of_part (hvalue hfound) (by omega) (fun bound outer => ?_) (ih hmore)
      rw [honward]
      exact skipInside_key hfront hkey hcolon

end Lists

/-- A value is an array, an object, or a value without parts, as its first character tells. -/
theorem readValue_cases {depth : Nat} {text rest : List Char} {json : Json}
    (h : readValue depth text = .ok (json, rest)) :
    ∃ c behind, skipSpace text = c :: behind ∧
      ((c = '[' ∧ ∃ inner items, depth = inner + 1 ∧ json = array items ∧
          readItems (readValue inner) (behind.length + 1) true behind = .ok (items, rest)) ∨
        (c = '\x7b' ∧ ∃ inner members, depth = inner + 1 ∧ json = object members ∧
          readMembers (readValue inner) (behind.length + 1) true behind = .ok (members, rest)) ∨
        (c ≠ '[' ∧ c ≠ '\x7b' ∧ readLeaf c behind = .ok (json, rest))) := by
  unfold readValue at h
  split at h
  next => cases h
  next c behind hspace =>
    refine ⟨c, behind, hspace, ?_⟩
    split at h
    next harray =>
      cases depth with
      | zero => cases h
      | succ inner =>
        obtain ⟨⟨items, last⟩, hitems, h⟩ := bind_eq_ok_iff.mp h
        obtain ⟨rfl, rfl⟩ := Prod.mk.inj (Except.ok.inj h)
        exact Or.inl ⟨by simpa using harray, inner, items, rfl, rfl, hitems⟩
    next harray =>
      split at h
      next hobject =>
        cases depth with
        | zero => cases h
        | succ inner =>
          obtain ⟨⟨members, last⟩, hmembers, h⟩ := bind_eq_ok_iff.mp h
          obtain ⟨rfl, rfl⟩ := Prod.mk.inj (Except.ok.inj h)
          exact Or.inr (Or.inl ⟨by simpa using hobject, inner, members, rfl, rfl, hmembers⟩)
      next hobject => exact Or.inr (Or.inr ⟨by simpa using harray, by simpa using hobject, h⟩)

theorem Passes.of_leaf {c : Char} {text behind rest : List Char} {json : Json}
    (hspace : skipSpace text = c :: behind) (harray : c ≠ '[') (hobject : c ≠ '\x7b')
    (hleaf : readLeaf c behind = .ok (json, rest)) : Passes text rest := by
  have hskip := skipLeaf_of_readLeaf hleaf
  have hlength := length_of_readLeaf hleaf
  have hlength' := length_of_skipSpace hspace
  have hhead : ∀ opened, skipHead opened text = .ok (opened, true, rest) := by
    intro opened
    rw [skipHead_leaf hspace harray hobject, hskip]
    rfl
  refine ⟨by omega, fun opened bound hbound => ?_⟩
  obtain ⟨bound, rfl⟩ : ∃ n, bound = n + 1 := ⟨bound - 1, by omega⟩
  refine ⟨bound, by omega, ?_⟩
  rw [skipParts_succ, hhead]
  rfl

-- By induction on the depth, over which the items and the members are passed over one by one.
theorem passes_of_readValue {depth : Nat} {text rest : List Char} {json : Json}
    (h : readValue depth text = .ok (json, rest)) : Passes text rest := by
  induction depth using Nat.strongRecOn generalizing text rest json with
  | _ depth ih =>
    obtain ⟨c, behind, hspace, ⟨rfl, inner, items, rfl, rfl, hitems⟩ |
      ⟨rfl, inner, members, rfl, rfl, hmembers⟩ | ⟨harray, hobject, hleaf⟩⟩ := readValue_cases h
    · refine PassesUpTo.passes (fun opened => ?_) (length_of_skipSpace hspace)
        (passesUpTo_of_readItems (ih inner (Nat.lt_succ_self _)) (readValue_skipSpace inner) hitems)
      rw [skipHead, hspace]
      rfl
    · refine PassesUpTo.passes (fun opened => ?_) (length_of_skipSpace hspace)
        (passesUpTo_of_readMembers (ih inner (Nat.lt_succ_self _)) hmembers)
      rw [skipHead, hspace]
      rfl
    · exact .of_leaf hspace harray hobject hleaf

/-- **A value that can be read is passed over**, up to the same place. -/
theorem skipValue_of_readValue {depth : Nat} {text rest : List Char} {json : Json}
    (h : readValue depth text = .ok (json, rest)) : skipValue text = .ok rest := by
  obtain ⟨-, hpasses⟩ := passes_of_readValue h
  obtain ⟨bound, -, hskip⟩ := hpasses [] (text.length + 1) (Nat.lt_succ_self _)
  rw [skipValue, hskip, skipOnward_done]

end QueryLocator.JsonShape
