import QueryLocator.Proofs.JsonScalars
import QueryLocator.Proofs.Outcomes

/-! # Values read back as they were written

The compact text of a value is read as the value (`readValue_compact`), as long as its numbers are
integers of 64 bits and its brackets do not nest too deeply.  Items and members behind the first one
are written alike, each after a comma, so reading a list is one step for each of them.
-/
namespace QueryLocator.Json

open Decimal JsonFailure

/-! ## Tests of all values inside a value -/

mutual

/-- Whether a test holds of a value and of all values inside it. -/
def everywhere (test : Json → Bool) : Json → Bool
  | array items => test (array items) && itemsEverywhere test items
  | object members => test (object members) && membersEverywhere test members
  | null => test null
  | boolean value => test (boolean value)
  | number value => test (number value)
  | string value => test (string value)

/-- Whether a test holds of all items and of all values inside them. -/
def itemsEverywhere (test : Json → Bool) : List Json → Bool
  | [] => true
  | item :: rest => item.everywhere test && itemsEverywhere test rest

/-- Whether a test holds of the values of all members and of all values inside them. -/
def membersEverywhere (test : Json → Bool) : List (String × Json) → Bool
  | [] => true
  | (_, value) :: rest => value.everywhere test && membersEverywhere test rest

end

/-- Whether a value is no number, or an integer of 64 bits, with or without a sign. -/
def isIntegral : Json → Bool
  | number (.integer value) => -Int.pow 2 63 ≤ value && value < Int.pow 2 64
  | number (.float _ _) => false
  | _ => true

mutual

/-- How deeply the brackets of a value nest. -/
def nesting : Json → Nat
  | array items => itemsNesting items + 1
  | object members => membersNesting members + 1
  | null | boolean _ | number _ | string _ => 0

/-- How deeply the brackets of items nest. -/
def itemsNesting : List Json → Nat
  | [] => 0
  | item :: rest => max item.nesting (itemsNesting rest)

/-- How deeply the brackets of the values of members nest. -/
def membersNesting : List (String × Json) → Nat
  | [] => 0
  | (_, value) :: rest => max value.nesting (membersNesting rest)

end

/-! ## Steps of the readers -/

theorem skipSpace_cons {c : Char} (hc : isSpace c = false) (rest : List Char) :
    skipSpace (c :: rest) = c :: rest :=
  List.dropWhile_cons_of_neg (by simp [hc])

theorem isSpace_of_isDigit {c : Char} (hc : c.isDigit = true) : isSpace c = false := by
  apply Bool.eq_false_iff.mpr
  intro hspace
  simp only [isSpace, Bool.or_eq_true, beq_iff_eq] at hspace
  rcases hspace with ((rfl | rfl) | rfl) | rfl <;> simp at hc

/-- A text that begins with a value. -/
def StartsValue (text : List Char) : Prop :=
  ∃ c rest, text = c :: rest ∧ isSpace c = false ∧ c ≠ ']'

section Steps
variable {α : Type} {bound : Nat} {found : α} {values : List α} {members : List (String × α)}
  {text rest rest' : List Char}

theorem nextItem_first (h : StartsValue text) : nextItem true text = .ok (true, text) := by
  obtain ⟨c, rest, rfl, hspace, hclosing⟩ := h
  unfold nextItem
  rw [skipSpace_cons hspace]
  simp

theorem nextItem_behind_comma (text : List Char) : nextItem false (',' :: text) =
    match skipSpace text with
    | [] => here .endInValue []
    | ']' :: rest => atNext .trailingComma (']' :: rest)
    | rest => .ok (true, rest) := rfl

theorem nextItem_comma (h : StartsValue text) : nextItem false (',' :: text) = .ok (true, text) := by
  obtain ⟨c, rest, rfl, hspace, hclosing⟩ := h
  rw [nextItem_behind_comma, skipSpace_cons hspace]
  split
  next heq => cases heq
  next heq => exact absurd (List.cons.inj heq).1 hclosing
  next => rfl

theorem readItems_end (item : JsonReader α) (first : Bool) :
    readItems item (bound + 1) first (']' :: rest) = .ok ([], rest) := rfl

/-- Reading an item and then the others. -/
theorem readItems_step {item : JsonReader α} {first : Bool}
    (hnext : nextItem first text = .ok (true, rest)) (hitem : item rest = .ok (found, rest'))
    {behind : List Char} (hmore : readItems item bound false rest' = .ok (values, behind)) :
    readItems item (bound + 1) first text = .ok (found :: values, behind) := by
  simp [readItems, hnext, hitem, hmore, bind, Except.bind, pure, Except.pure]

theorem nextKey_first (text : List Char) : nextKey true ('"' :: text) = .ok (true, text) := rfl

theorem nextKey_comma (text : List Char) : nextKey false (',' :: '"' :: text) = .ok (true, text) :=
  rfl

theorem readMembers_end (value : JsonReader α) (first : Bool) :
    readMembers value (bound + 1) first ('\x7d' :: rest) = .ok ([], rest) := rfl

/-- Reading a member and then the others. -/
theorem readMembers_step {value : JsonReader α} {first : Bool} {key : String}
    (hnext : nextKey first text =
      .ok (true, key.toList.flatMap escapeChar ++ '"' :: ':' :: rest))
    (hvalue : value rest = .ok (found, rest'))
    {behind : List Char} (hmore : readMembers value bound false rest' = .ok (members, behind)) :
    readMembers value (bound + 1) first text = .ok ((key, found) :: members, behind) := by
  have hcolon : readColon (':' :: rest) = .ok ((), rest) := rfl
  simp [readMembers, hnext, readString_escaped, hcolon, hvalue, hmore, bind, Except.bind, pure,
    Except.pure]

end Steps

/-- The first character of a text tells how a value is read. -/
theorem readValue_leaf {c : Char} (hspace : isSpace c = false) (harray : c ≠ '[')
    (hobject : c ≠ '\x7b') (depth : Nat) (rest : List Char) :
    readValue depth (c :: rest) = readLeaf c rest := by
  unfold readValue
  rw [skipSpace_cons hspace]
  simp [harray, hobject]

theorem readValue_openArray (depth : Nat) (text : List Char) :
    readValue (depth + 1) ('[' :: text) = do
      let (items, rest) ← readItems (readValue depth) (text.length + 1) true text
      return (array items, rest) := rfl

theorem readValue_openObject (depth : Nat) (text : List Char) :
    readValue (depth + 1) ('\x7b' :: text) = do
      let (members, rest) ← readMembers (readValue depth) (text.length + 1) true text
      return (object members, rest) := rfl

theorem readValue_array {depth : Nat} {items : List Json} {text rest : List Char}
    (h : readItems (readValue depth) (text.length + 1) true text = .ok (items, rest)) :
    readValue (depth + 1) ('[' :: text) = .ok (array items, rest) := by
  rw [readValue_openArray, h]
  rfl

theorem readValue_object {depth : Nat} {members : List (String × Json)} {text rest : List Char}
    (h : readMembers (readValue depth) (text.length + 1) true text = .ok (members, rest)) :
    readValue (depth + 1) ('\x7b' :: text) = .ok (object members, rest) := by
  rw [readValue_openObject, h]
  rfl

/-! ## The compact text -/

/-- The text of a member. -/
def memberText (member : String × Json) : List Char :=
  stringText member.1 ++ ':' :: member.2.compact

/-- Each item behind the first one stands after a comma. -/
theorem compactItems_cons (item : Json) (rest : List Json) :
    compactItems (item :: rest) = item.compact ++ rest.flatMap fun item => ',' :: item.compact := by
  induction rest generalizing item with
  | nil => simp [compactItems]
  | cons next rest ih =>
    rw [compactItems, ih, List.flatMap_cons, List.cons_append]
    simp

/-- Each member behind the first one stands after a comma. -/
theorem compactMembers_cons (member : String × Json) (rest : List (String × Json)) :
    compactMembers (member :: rest) =
      memberText member ++ rest.flatMap fun member => ',' :: memberText member := by
  induction rest generalizing member with
  | nil => simp [compactMembers, memberText]
  | cons next rest ih =>
    rw [compactMembers, ih, List.flatMap_cons, List.cons_append]
    · simp [memberText]
    · simp

theorem endsNumber_nil : EndsNumber [] := by
  simp [EndsNumber]

theorem of_everywhere {test : Json → Bool} {value : Json} (h : value.everywhere test = true) :
    test value = true := by
  cases value <;> simp_all [everywhere]

theorem readLeaf_quote (text : List Char) : readLeaf '"' text = do
    let (value, rest) ← readString text
    return (string value, rest) := rfl

/-- What is written for a value without brackets. -/
theorem readLeaf_leafText {value : Json} (hleaf : value.nesting = 0)
    (hintegral : isIntegral value = true) {rest : List Char} (hrest : EndsNumber rest) :
    ∃ c text, value.compact = c :: text ∧ isSpace c = false ∧ c ∉ ['[', ']', '\x7b'] ∧
      readLeaf c (text ++ rest) = .ok (value, rest) := by
  match value with
  | null => exact ⟨_, _, rfl, rfl, by decide, rfl⟩
  | boolean true => exact ⟨_, _, rfl, rfl, by decide, rfl⟩
  | boolean false => exact ⟨_, _, rfl, rfl, by decide, rfl⟩
  | string value =>
    have hread := readString_escaped value rest
    refine ⟨_, _, rfl, rfl, by decide, ?_⟩
    simp only [List.append_eq, List.append_assoc, List.singleton_append, readLeaf_quote, hread]
    rfl
  | number (.integer value) =>
    simp only [isIntegral, Bool.and_eq_true, decide_eq_true_eq] at hintegral
    obtain ⟨c, text, htext, hc, hread⟩ := readLeaf_integer hintegral.1 hintegral.2 hrest
    refine ⟨c, text, htext, ?_, ?_, hread⟩
    · rcases hc with rfl | hc
      · rfl
      · exact isSpace_of_isDigit hc
    · intro hmem
      simp only [List.mem_cons, List.not_mem_nil, or_false] at hmem
      rcases hmem with rfl | rfl | rfl <;> simp at hc

/-- A value begins with a character that is no white space and ends no list. -/
theorem startsValue_compact {value : Json} (hintegral : isIntegral value = true)
    (rest : List Char) : StartsValue (value.compact ++ rest) := by
  match value with
  | array _ => exact ⟨_, _, rfl, rfl, by decide⟩
  | object _ => exact ⟨_, _, rfl, rfl, by decide⟩
  | null | boolean _ | number _ | string _ =>
    obtain ⟨c, text, hcompact, hspace, hc, -⟩ := readLeaf_leafText rfl hintegral endsNumber_nil
    exact ⟨c, text ++ rest, by rw [hcompact]; rfl, hspace, by simp_all⟩

/-- What stands behind a value in a list or at the end of a line ends a number. -/
theorem endsNumber_cons {c : Char} (hc : c ∈ [',', ']', '\x7d', '\n']) (rest : List Char) :
    EndsNumber (c :: rest) := by
  rintro d hd
  obtain rfl : c = d := Option.some.inj hd
  simp only [List.mem_cons, List.not_mem_nil, or_false] at hc
  rcases hc with rfl | rfl | rfl | rfl <;> decide

theorem endsNumber_flatMap {α : Type} (f : α → List Char) (others : List α) {c : Char}
    (hc : c ∈ [',', ']', '\x7d', '\n']) (rest : List Char) :
    EndsNumber ((others.flatMap fun other => ',' :: f other) ++ c :: rest) := by
  cases others with
  | nil => exact endsNumber_cons hc rest
  | cons other others => exact endsNumber_cons (by simp) _

/-- A list takes at least one character for each of its parts behind the first. -/
theorem length_le_length_flatMap {α : Type} (f : α → List Char) (others : List α) :
    others.length ≤ (others.flatMap fun other => ',' :: f other).length := by
  induction others with
  | nil => simp
  | cons other others ih =>
    simp only [List.flatMap_cons, List.length_append, List.length_cons]
    omega

theorem compact_array_append (item : Json) (items : List Json) (rest : List Char) :
    (array (item :: items)).compact ++ rest =
      '[' :: (item.compact ++ ((items.flatMap fun item => ',' :: item.compact) ++ ']' :: rest)) := by
  simp [compact, compactItems_cons]

theorem compact_object_append (member : String × Json) (members : List (String × Json))
    (rest : List Char) :
    (object (member :: members)).compact ++ rest = '\x7b' :: (memberText member ++
      ((members.flatMap fun member => ',' :: memberText member) ++ '\x7d' :: rest)) := by
  simp [compact, compactMembers_cons]

theorem memberText_append (key : String) (value : Json) (rest : List Char) :
    memberText (key, value) ++ rest =
      '"' :: (key.toList.flatMap escapeChar ++ '"' :: ':' :: (value.compact ++ rest)) := by
  simp [memberText, stringText]

-- The induction is on the value.  A list needs one more step of its bound than it has parts, and the
-- length of the text gives that many.
mutual

/-- **A value reads back from its compact text.** -/
theorem readValue_compact (value : Json) {depth : Nat} {rest : List Char}
    (hintegral : value.everywhere isIntegral = true) (hdepth : value.nesting ≤ depth)
    (hrest : EndsNumber rest) : readValue depth (value.compact ++ rest) = .ok (value, rest) := by
  match value with
  | null | boolean _ | number _ | string _ =>
    obtain ⟨c, text, hcompact, hspace, hc, hread⟩ :=
      readLeaf_leafText rfl (of_everywhere hintegral) hrest
    rw [hcompact, List.cons_append, readValue_leaf hspace (by simp_all) (by simp_all), hread]
  | array [] =>
    obtain ⟨depth, rfl⟩ := Nat.exists_eq_add_of_le' hdepth
    exact readValue_array (readItems_end _ true)
  | object [] =>
    obtain ⟨depth, rfl⟩ := Nat.exists_eq_add_of_le' hdepth
    exact readValue_object (readMembers_end _ true)
  | array (item :: items) =>
    simp only [everywhere, itemsEverywhere, Bool.and_eq_true] at hintegral
    simp only [nesting, itemsNesting] at hdepth
    obtain ⟨depth, rfl⟩ : ∃ n, depth = n + 1 := ⟨depth - 1, by omega⟩
    have hlength := length_le_length_flatMap compact items
    rw [compact_array_append]
    refine readValue_array (readItems_step
      (nextItem_first (startsValue_compact (of_everywhere hintegral.2.1) _))
      (readValue_compact item hintegral.2.1 (by omega) (endsNumber_flatMap _ _ (by simp) rest))
      (readItems_compact items rest hintegral.2.2 (by omega) ?_))
    simp only [List.length_append, List.length_cons]
    omega
  | object ((key, value) :: members) =>
    simp only [everywhere, membersEverywhere, Bool.and_eq_true] at hintegral
    simp only [nesting, membersNesting] at hdepth
    obtain ⟨depth, rfl⟩ : ∃ n, depth = n + 1 := ⟨depth - 1, by omega⟩
    have hlength := length_le_length_flatMap memberText members
    rw [compact_object_append, memberText_append]
    refine readValue_object (readMembers_step (nextKey_first _)
      (readValue_compact value hintegral.2.1 (by omega) (endsNumber_flatMap _ _ (by simp) rest))
      (readMembers_compact members rest hintegral.2.2 (by omega) ?_))
    simp only [List.length_append, List.length_cons]
    omega

/-- Items behind the first one. -/
theorem readItems_compact (items : List Json) {depth bound : Nat} (rest : List Char)
    (hintegral : itemsEverywhere isIntegral items = true) (hdepth : itemsNesting items ≤ depth)
    (hbound : items.length < bound) :
    readItems (readValue depth) bound false
      ((items.flatMap fun item => ',' :: item.compact) ++ ']' :: rest) = .ok (items, rest) := by
  obtain ⟨bound, rfl⟩ : ∃ n, bound = n + 1 := ⟨bound - 1, by omega⟩
  match items with
  | [] => exact readItems_end (readValue depth) false
  | item :: items =>
    simp only [itemsEverywhere, Bool.and_eq_true] at hintegral
    simp only [itemsNesting] at hdepth
    rw [List.flatMap_cons, List.append_assoc, List.cons_append]
    exact readItems_step (nextItem_comma (startsValue_compact (of_everywhere hintegral.1) _))
      (readValue_compact item hintegral.1 (by omega) (endsNumber_flatMap _ _ (by simp) rest))
      (readItems_compact items rest hintegral.2 (by omega) (by simpa using hbound))

/-- Members behind the first one. -/
theorem readMembers_compact (members : List (String × Json)) {depth bound : Nat} (rest : List Char)
    (hintegral : membersEverywhere isIntegral members = true) (hdepth : membersNesting members ≤ depth)
    (hbound : members.length < bound) :
    readMembers (readValue depth) bound false
      ((members.flatMap fun member => ',' :: memberText member) ++ '\x7d' :: rest) =
        .ok (members, rest) := by
  obtain ⟨bound, rfl⟩ : ∃ n, bound = n + 1 := ⟨bound - 1, by omega⟩
  match members with
  | [] => exact readMembers_end (readValue depth) false
  | (key, value) :: members =>
    simp only [membersEverywhere, Bool.and_eq_true] at hintegral
    simp only [membersNesting] at hdepth
    rw [List.flatMap_cons, List.append_assoc, List.cons_append, memberText_append]
    exact readMembers_step (nextKey_comma _)
      (readValue_compact value hintegral.1 (by omega) (endsNumber_flatMap _ _ (by simp) rest))
      (readMembers_compact members rest hintegral.2 (by omega) (by simpa using hbound))

end

/-! ## Whole texts -/

/-- A text is read whole when nothing but white space follows the value. -/
theorem parse_eq_ok_iff {text : String} {json : Json} : Json.parse text = .ok json ↔
    ∃ rest, readValue nestingLimit text.toList = .ok (json, rest) ∧ readEnd rest = .ok () := by
  constructor
  · intro h
    obtain ⟨⟨found, rest⟩, hread, h⟩ := bind_eq_ok_iff.mp h
    obtain ⟨⟨⟩, hend, h⟩ := bind_eq_ok_iff.mp h
    obtain rfl := Except.ok.inj h
    exact ⟨rest, hread, hend⟩
  · rintro ⟨rest, hread, hend⟩
    exact bind_eq_ok_iff.mpr ⟨_, hread, bind_eq_ok_iff.mpr ⟨_, hend, rfl⟩⟩

end QueryLocator.Json
