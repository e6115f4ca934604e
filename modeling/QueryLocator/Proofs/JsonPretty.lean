import QueryLocator.Proofs.JsonText

/-! # Pretty texts read back

The pretty text of a value is read as the value (`readValue_prettyAt`), under the conditions that the
compact text has.  The readers look past the new lines in front of items, members and closing
brackets, and past the space behind a colon, so each step is the one that the compact text takes.

A value on a line of its own is read from the whole line, whether its text is compact
(`parse_render_line`) or pretty (`parse_renderPretty_line`).
-/
namespace QueryLocator.Json

open JsonFailure

/-! ## White space in front -/

section Space
variable {α : Type} {bound : Nat}

theorem skipSpace_newLine (depth : Nat) (text : List Char) :
    skipSpace (newLine depth ++ text) = skipSpace text := by
  refine List.dropWhile_append_of_pos ?_
  intro c hc
  rcases List.mem_cons.mp hc with rfl | hc
  · rfl
  · rw [List.eq_of_mem_replicate hc]
    rfl

theorem readValue_space (limit : Nat) (text : List Char) :
    readValue limit (' ' :: text) = readValue limit text := by
  have hspace : skipSpace (' ' :: text) = skipSpace text := rfl
  unfold readValue
  rw [hspace]

theorem nextItem_newLine (first : Bool) (depth : Nat) (text : List Char) :
    nextItem first (newLine depth ++ text) = nextItem first text := by
  unfold nextItem
  rw [skipSpace_newLine]

theorem nextItem_comma_newLine (depth : Nat) (text : List Char) :
    nextItem false (',' :: (newLine depth ++ text)) = nextItem false (',' :: text) := by
  rw [nextItem_behind_comma, nextItem_behind_comma, skipSpace_newLine]

theorem nextKey_newLine (first : Bool) (depth : Nat) (text : List Char) :
    nextKey first (newLine depth ++ text) = nextKey first text := by
  unfold nextKey
  rw [skipSpace_newLine]

/-- A key on a line of its own behind a comma. -/
theorem nextKey_comma_newLine (depth : Nat) (text : List Char) :
    nextKey false (',' :: (newLine depth ++ '"' :: text)) = .ok (true, text) := by
  rw [nextKey]
  simp [skipSpace_cons (show isSpace ',' = false from rfl), skipSpace_newLine,
    skipSpace_cons (show isSpace '"' = false from rfl)]

theorem readItems_newLine (item : JsonReader α) (first : Bool) (depth : Nat) (rest : List Char) :
    readItems item (bound + 1) first (newLine depth ++ ']' :: rest) = .ok ([], rest) := by
  rw [readItems, nextItem_newLine]
  rfl

theorem readMembers_newLine (value : JsonReader α) (first : Bool) (depth : Nat)
    (rest : List Char) :
    readMembers value (bound + 1) first (newLine depth ++ '\x7d' :: rest) = .ok ([], rest) := by
  rw [readMembers, nextKey_newLine]
  rfl

end Space

/-! ## The pretty text -/

/-- The pretty text of a member that stands at a depth. -/
def prettyMember (depth : Nat) (member : String × Json) : List Char :=
  stringText member.1 ++ ':' :: ' ' :: prettyAt depth member.2

theorem prettyItems_eq (depth : Nat) (items : List Json) :
    prettyItems depth items =
      items.flatMap fun item => ',' :: (newLine depth ++ prettyAt depth item) := by
  induction items with
  | nil => rfl
  | cons item items ih => rw [prettyItems, ih, List.flatMap_cons, List.cons_append]

theorem prettyMembers_eq (depth : Nat) (members : List (String × Json)) :
    prettyMembers depth members =
      members.flatMap fun member => ',' :: (newLine depth ++ prettyMember depth member) := by
  induction members with
  | nil => rfl
  | cons member members ih =>
    rw [prettyMembers, ih, List.flatMap_cons]
    simp [prettyMember]

theorem prettyAt_array_append (depth : Nat) (item : Json) (items : List Json) (rest : List Char) :
    (array (item :: items)).prettyAt depth ++ rest =
      '[' :: (newLine (depth + 1) ++ (item.prettyAt (depth + 1) ++
        (prettyItems (depth + 1) items ++ (newLine depth ++ ']' :: rest)))) := by
  simp [prettyAt]

theorem prettyItems_cons_append (depth : Nat) (item : Json) (items : List Json)
    (rest : List Char) :
    prettyItems depth (item :: items) ++ rest =
      ',' :: (newLine depth ++ (item.prettyAt depth ++ (prettyItems depth items ++ rest))) := by
  simp [prettyItems]

theorem prettyMember_append (depth : Nat) (key : String) (value : Json) (rest : List Char) :
    prettyMember depth (key, value) ++ rest = '"' :: (key.toList.flatMap escapeChar ++
      '"' :: ':' :: ' ' :: (value.prettyAt depth ++ rest)) := by
  simp [prettyMember, stringText]

theorem prettyMembers_cons_append (depth : Nat) (member : String × Json)
    (members : List (String × Json)) (rest : List Char) :
    prettyMembers depth (member :: members) ++ rest = ',' :: (newLine depth ++
      (prettyMember depth member ++ (prettyMembers depth members ++ rest))) := by
  simp [prettyMembers, prettyMember]

theorem prettyAt_object_append (depth : Nat) (member : String × Json)
    (members : List (String × Json)) (rest : List Char) :
    (object (member :: members)).prettyAt depth ++ rest =
      '\x7b' :: (newLine (depth + 1) ++ (prettyMember (depth + 1) member ++
        (prettyMembers (depth + 1) members ++ (newLine depth ++ '\x7d' :: rest)))) := by
  simp [prettyAt, prettyMember]

/-- A value begins with a character that is no white space and ends no list. -/
theorem startsValue_prettyAt {value : Json} (hintegral : isIntegral value = true) (depth : Nat)
    (rest : List Char) : StartsValue (value.prettyAt depth ++ rest) := by
  match value with
  | array [] | array (_ :: _) | object [] | object (_ :: _) => exact ⟨_, _, rfl, rfl, by decide⟩
  | null | boolean _ | number _ | string _ => exact startsValue_compact hintegral rest

/-- What stands behind a value on a line of its own. -/
theorem endsNumber_newLine {α : Type} (f : α → List Char) (others : List α) (depth : Nat)
    (rest : List Char) :
    EndsNumber ((others.flatMap fun other => ',' :: f other) ++ (newLine depth ++ rest)) :=
  endsNumber_flatMap f others (by simp) _

-- The induction is the one on the compact text.  Each item and each member stands behind a new line.
mutual

/-- **A value reads back from its pretty text.** -/
theorem readValue_prettyAt (value : Json) (depth : Nat) {limit : Nat} {rest : List Char}
    (hintegral : value.everywhere isIntegral = true) (hnesting : value.nesting ≤ limit)
    (hrest : EndsNumber rest) : readValue limit (value.prettyAt depth ++ rest) = .ok (value, rest) := by
  match value with
  | null | boolean _ | number _ | string _ => exact readValue_compact _ hintegral hnesting hrest
  | array [] | object [] => exact readValue_compact _ hintegral hnesting hrest
  | array (item :: items) =>
    simp only [everywhere, itemsEverywhere, Bool.and_eq_true] at hintegral
    simp only [nesting, itemsNesting] at hnesting
    obtain ⟨limit, rfl⟩ : ∃ n, limit = n + 1 := ⟨limit - 1, by omega⟩
    rw [prettyAt_array_append]
    refine readValue_array (readItems_step
      ((nextItem_newLine true ..).trans
        (nextItem_first (startsValue_prettyAt (of_everywhere hintegral.2.1) ..)))
      (readValue_prettyAt item (depth + 1) hintegral.2.1 (by omega) ?_)
      (readItems_pretty items (depth + 1) depth rest hintegral.2.2 (by omega) ?_))
    · rw [prettyItems_eq]
      exact endsNumber_newLine _ _ _ _
    · have hlength := length_le_length_flatMap (newLine (depth + 1) ++ prettyAt (depth + 1) ·) items
      simp only [prettyItems_eq, List.length_append, List.length_cons]
      omega
  | object ((key, value) :: members) =>
    simp only [everywhere, membersEverywhere, Bool.and_eq_true] at hintegral
    simp only [nesting, membersNesting] at hnesting
    obtain ⟨limit, rfl⟩ : ∃ n, limit = n + 1 := ⟨limit - 1, by omega⟩
    rw [prettyAt_object_append, prettyMember_append]
    refine readValue_object (readMembers_step
      ((nextKey_newLine true ..).trans (nextKey_first _))
      ((readValue_space limit _).trans
        (readValue_prettyAt value (depth + 1) hintegral.2.1 (by omega) ?_))
      (readMembers_pretty members (depth + 1) depth rest hintegral.2.2 (by omega) ?_))
    · rw [prettyMembers_eq]
      exact endsNumber_newLine _ _ _ _
    · have hlength :=
        length_le_length_flatMap (newLine (depth + 1) ++ prettyMember (depth + 1) ·) members
      simp only [prettyMembers_eq, List.length_append, List.length_cons]
      omega

/-- Items behind the first one. -/
theorem readItems_pretty (items : List Json) (depth closing : Nat) {limit bound : Nat}
    (rest : List Char) (hintegral : itemsEverywhere isIntegral items = true)
    (hnesting : itemsNesting items ≤ limit) (hbound : items.length < bound) :
    readItems (readValue limit) bound false
      (prettyItems depth items ++ (newLine closing ++ ']' :: rest)) = .ok (items, rest) := by
  obtain ⟨bound, rfl⟩ : ∃ n, bound = n + 1 := ⟨bound - 1, by omega⟩
  match items with
  | [] => exact readItems_newLine _ false closing rest
  | item :: items =>
    simp only [itemsEverywhere, Bool.and_eq_true] at hintegral
    simp only [itemsNesting] at hnesting
    rw [prettyItems_cons_append]
    refine readItems_step
      ((nextItem_comma_newLine ..).trans
        (nextItem_comma (startsValue_prettyAt (of_everywhere hintegral.1) ..)))
      (readValue_prettyAt item depth hintegral.1 (by omega) ?_)
      (readItems_pretty items depth closing rest hintegral.2 (by omega) (by simpa using hbound))
    rw [prettyItems_eq]
    exact endsNumber_newLine _ _ _ _

/-- Members behind the first one. -/
theorem readMembers_pretty (members : List (String × Json)) (depth closing : Nat)
    {limit bound : Nat} (rest : List Char) (hintegral : membersEverywhere isIntegral members = true)
    (hnesting : membersNesting members ≤ limit) (hbound : members.length < bound) :
    readMembers (readValue limit) bound false
      (prettyMembers depth members ++ (newLine closing ++ '\x7d' :: rest)) = .ok (members, rest) := by
  obtain ⟨bound, rfl⟩ : ∃ n, bound = n + 1 := ⟨bound - 1, by omega⟩
  match members with
  | [] => exact readMembers_newLine _ false closing rest
  | (key, value) :: members =>
    simp only [membersEverywhere, Bool.and_eq_true] at hintegral
    simp only [membersNesting] at hnesting
    rw [prettyMembers_cons_append, prettyMember_append]
    refine readMembers_step (nextKey_comma_newLine ..)
      ((readValue_space limit _).trans (readValue_prettyAt value depth hintegral.1 (by omega) ?_))
      (readMembers_pretty members depth closing rest hintegral.2 (by omega) (by simpa using hbound))
    rw [prettyMembers_eq]
    exact endsNumber_newLine _ _ _ _

end

/-! ## Texts on lines of their own -/

/-- A text with a line feed behind it is read whole. -/
theorem parse_line {text : List Char} {value : Json}
    (h : readValue nestingLimit (text ++ ['\n']) = .ok (value, ['\n'])) :
    Json.parse (String.ofList text ++ "\n") = .ok value := by
  have hline : "\n".toList = ['\n'] := rfl
  refine parse_eq_ok_iff.mpr ⟨['\n'], ?_, rfl⟩
  rw [String.toList_append, String.toList_ofList, hline]
  exact h

section Lines
variable {value : Json} (hintegral : value.everywhere isIntegral = true)
  (hnesting : value.nesting ≤ nestingLimit)
include hintegral hnesting

theorem parse_render_line : Json.parse (value.render ++ "\n") = .ok value :=
  parse_line (readValue_compact value hintegral hnesting (endsNumber_cons (by simp) []))

theorem parse_renderPretty_line : Json.parse (value.renderPretty ++ "\n") = .ok value :=
  parse_line (readValue_prettyAt value 0 hintegral hnesting (endsNumber_cons (by simp) []))

end Lines

end QueryLocator.Json
