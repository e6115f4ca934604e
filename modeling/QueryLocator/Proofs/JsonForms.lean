import QueryLocator.Proofs.JsonBrackets
import QueryLocator.Wire

/-! # What fits a shape

A shape reads a text without building the value that stands in it.  Where the value can be built, the
form that the shape gives is a form of the value (`Follows`): the place of the text, its white space and
its escapes do not matter, and in a record neither do the order of the members and the members
that are no fields of it (`follows_record`).
-/
namespace QueryLocator

open Json JsonFailure

/-! ## Forms of values -/

namespace Json

/-- A canonical form of the values that have one. -/
abbrev Form := Json → Option Json

/-- The value of the only member with a name. -/
def onlyMember? (name : String) (members : List (String × Json)) : Option Json :=
  match members.filter (·.1 = name) with
  | [member] => some member.2
  | _ => none

/-- The order of the members does not matter. -/
theorem onlyMember?_of_perm {members members' : List (String × Json)} (h : members.Perm members')
    (name : String) : onlyMember? name members = onlyMember? name members' := by
  have hnamed : (members.filter (·.1 = name)).Perm (members'.filter (·.1 = name)) := h.filter _
  have hlength := hnamed.length_eq
  unfold onlyMember?
  generalize members.filter (·.1 = name) = named at hnamed hlength
  generalize members'.filter (·.1 = name) = named' at hnamed hlength
  match named, named' with
  | [], [] => rfl
  | [member], [member'] => rw [List.singleton_perm_singleton.mp hnamed]
  | _ :: _ :: _, _ :: _ :: _ => rfl

/-- Members with another name do not matter. -/
theorem onlyMember?_cons_of_ne {name key : String} (h : key ≠ name) (value : Json)
    (members : List (String × Json)) :
    onlyMember? name ((key, value) :: members) = onlyMember? name members := by
  unfold onlyMember?
  rw [List.filter_cons_of_neg (by simpa using h)]

/-- The word of a choice: it stands alone, or as the only key of an object, with null for its value. -/
def word? : Json → Option String
  | string word => some word
  | object [(word, null)] => some word
  | _ => none

end Json

namespace JsonShape

/-- What was read, if it fits. -/
def fitted? (read : Except JsonFailure (Except Mismatch Json × List Char)) :
    Option (Json × List Char) :=
  match read with
  | .ok (.ok json, rest) => some (json, rest)
  | _ => none

/-- A shape gives the form of the value that a text begins with, and leaves the same rest. -/
def Follows (shape : JsonShape) (form : Form) : Prop :=
  ∀ {depth : Nat} {text rest : List Char} {json : Json}, readValue depth text = .ok (json, rest) →
    fitted? (shape depth text) = (form json).map fun canonical => (canonical, rest)

/-- Something that a shape gives. -/
def Gives (shape : JsonShape) (json : Json) : Prop :=
  ∃ depth text rest, shape depth text = .ok (.ok json, rest)

theorem fitted?_fits (value : Json) (rest : List Char) :
    fitted? (fits value rest) = some (value, rest) := rfl

theorem exists_wrongType {α : Type} (expected : String) (c : Char) (rest : List Char) :
    ∃ failure, (wrongType expected c rest : Except JsonFailure α) = .error failure := by
  unfold wrongType
  split
  next => exact ⟨_, rfl⟩
  next =>
    split
    next => exact ⟨_, rfl⟩
    next =>
      cases readLeaf c rest with
      | error failure => exact ⟨failure, rfl⟩
      | ok => exact ⟨_, rfl⟩

theorem fitted?_wrongType (expected : String) (c : Char) (rest : List Char) :
    fitted? (wrongType expected c rest) = none := by
  obtain ⟨failure, h⟩ := @exists_wrongType (Except Mismatch Json × List Char) expected c rest
  rw [h]
  rfl

/-- A step that fails fits nothing, and one that succeeds goes on. -/
theorem fitted?_bind {α : Type} (step : Except JsonFailure α)
    (next : α → Except JsonFailure (Except Mismatch Json × List Char)) :
    fitted? (step.bind next) = step.toOption.bind fun found => fitted? (next found) := by
  cases step <;> rfl

/-! ## Counts, texts and words -/

section Leaves
variable {c : Char} {depth : Nat} {text behind rest : List Char} {json : Json}

theorem count_other (hspace : skipSpace text = c :: behind) (hc : (c == '-' || c.isDigit) = false) :
    fitted? (count depth text) = none := by
  have hwrong : count depth text = wrongType "usize" c behind := by
    rw [count, hspace]
    dsimp only
    rw [if_neg (Bool.eq_false_iff.mp hc)]
  rw [hwrong, fitted?_wrongType]

theorem count_number {found : JsonNumber} (hspace : skipSpace text = c :: behind)
    (hc : (c == '-' || c.isDigit) = true) (hread : readLeaf c behind = .ok (number found, rest)) :
    fitted? (count depth text) =
      ((Wire.count? (number found)).map ofNat).map fun canonical => (canonical, rest) := by
  rw [count, hspace]
  dsimp only
  rw [if_pos hc, hread]
  cases found with
  | float => rfl
  | integer value =>
    change fitted? (if 0 ≤ value then _ else _) = _
    by_cases hvalue : 0 ≤ value
    · simp only [if_pos hvalue, fitted?_fits, Wire.count?, Option.map_some, ofNat,
        Int.toNat_of_nonneg hvalue]
    · simp only [if_neg hvalue, Wire.count?]
      rfl

theorem follows_count : Follows count fun json => (Wire.count? json).map ofNat := by
  intro depth text rest json h
  obtain ⟨c, behind, hspace, ⟨rfl, inner, items, rfl, rfl, -⟩ | ⟨rfl, inner, members, rfl, rfl, -⟩ |
    ⟨-, -, hleaf⟩⟩ := readValue_cases h
  · exact count_other hspace rfl
  · exact count_other hspace rfl
  · cases leafForm_of_readLeaf hleaf with
    | null _ | yes _ | no _ | quoted _ => exact count_other hspace rfl
    | negative _ => exact count_number hspace rfl hleaf
    | digits hc _ => exact count_number hspace (by simp [hc]) hleaf

theorem text_other (hspace : skipSpace text = c :: behind) (hc : c ≠ '"') :
    fitted? (JsonShape.text depth text) = none := by
  have hwrong : JsonShape.text depth text = wrongType "a string" c behind := by
    rw [JsonShape.text, hspace]
    split
    next heq => cases heq
    next heq => exact absurd (List.cons.inj heq).1 hc
    next heq =>
      obtain ⟨rfl, rfl⟩ := List.cons.inj heq
      rfl
  rw [hwrong, fitted?_wrongType]

theorem text_quote {found : String} (hspace : skipSpace text = '"' :: behind)
    (hread : readString behind = .ok (found, rest)) :
    JsonShape.text depth text = fits (.string found) rest := by
  have hquote : JsonShape.text depth text = (readString behind).bind fun read =>
      fits (.string read.1) read.2 := by
    rw [JsonShape.text, hspace]
    rfl
  rw [hquote, hread]
  rfl

theorem follows_text : Follows JsonShape.text fun json => (Wire.string? json).map .string := by
  intro depth text rest json h
  obtain ⟨c, behind, hspace, ⟨rfl, inner, items, rfl, rfl, -⟩ | ⟨rfl, inner, members, rfl, rfl, -⟩ |
    ⟨-, -, hleaf⟩⟩ := readValue_cases h
  · exact text_other hspace (by decide)
  · exact text_other hspace (by decide)
  · cases leafForm_of_readLeaf hleaf with
    | null _ | yes _ | no _ | negative _ => exact text_other hspace (by decide)
    | digits hc _ =>
      refine text_other hspace ?_
      rintro rfl
      cases hc
    | quoted hread =>
      rw [text_quote hspace hread]
      rfl

end Leaves

/-! ## Choices -/

section Choices
variable {words : List String} {c : Char} {depth : Nat} {text behind rest : List Char} {json : Json}

/-- The word of a choice that is the key of an object. -/
def choiceKey (words : List String) (text : List Char) : Except JsonFailure (String × List Char) :=
  match skipSpace text with
  | [] => here .endInValue []
  | '"' :: rest => readWordOf words rest
  | c :: rest => wrongType "variant identifier" c rest

theorem choiceKey_other (hspace : skipSpace text = c :: behind) (hc : c ≠ '"') :
    choiceKey words text = wrongType "variant identifier" c behind := by
  rw [choiceKey, hspace]
  split
  next heq => cases heq
  next heq => exact absurd (List.cons.inj heq).1 hc
  next heq =>
    obtain ⟨rfl, rfl⟩ := List.cons.inj heq
    rfl

/-- The end of the object of a choice. -/
def choiceEnd (word : String) (text : List Char) :
    Except JsonFailure (Except Mismatch Json × List Char) :=
  match skipSpace text with
  | [] => here .endInObject []
  | '\x7d' :: rest => fits (.string word) rest
  | rest => here .expectedValue rest

theorem choice_quote (hspace : skipSpace text = '"' :: behind) :
    choice words depth text =
      (readWordOf words behind).bind fun read => fits (.string read.1) read.2 := by
  rw [choice, hspace]
  rfl

theorem choice_object (hspace : skipSpace text = '\x7b' :: behind) :
    choice words (depth + 1) text = (choiceKey words behind).bind fun key =>
      (readColon key.2).bind fun colon => (readNull colon.2).bind (choiceEnd key.1) := by
  simp only [choice, hspace, if_neg (Nat.succ_ne_zero depth)]
  cases hfront : skipSpace behind with
  | nil =>
    rw [choiceKey, hfront]
    rfl
  | cons c rest =>
    by_cases hquote : c = '"'
    · subst hquote
      rw [choiceKey, hfront]
      rfl
    · rw [choiceKey_other hfront hquote]
      split
      next heq => cases heq
      next heq => exact absurd (List.cons.inj heq).1 hquote
      next heq =>
        obtain ⟨rfl, rfl⟩ := List.cons.inj heq
        rfl

theorem choice_other (hspace : skipSpace text = c :: behind) (hquote : c ≠ '"')
    (hobject : c ≠ '\x7b') : fitted? (choice words depth text) = none := by
  rw [choice, hspace]
  split
  next heq => cases heq
  next heq => exact absurd (List.cons.inj heq).1 hquote
  next heq => exact absurd (List.cons.inj heq).1 hobject
  next => rfl

theorem toOption_readWordOf {word : String} (h : readString text = .ok (word, rest)) :
    (readWordOf words text).toOption = if words.contains word then some (word, rest) else none := by
  unfold readWordOf
  rw [h]
  change Except.toOption (if words.contains word then _ else _) = _
  split <;> rfl

theorem toOption_readNull_other (hspace : skipSpace text = c :: behind) (hc : c ≠ 'n') :
    (readNull text).toOption = none := by
  rw [readNull, hspace]
  split
  next heq => cases heq
  next heq => exact absurd (List.cons.inj heq).1 hc
  next c behind _ _ =>
    obtain ⟨failure, h⟩ := @exists_wrongType (List Char) "unit" c behind
    rw [h]
    rfl

theorem readNull_null (hspace : skipSpace text = 'n' :: behind)
    (hread : readWord ['u', 'l', 'l'] behind = .ok ((), rest)) : readNull text = .ok rest := by
  have hnull : readNull text = (readWord ['u', 'l', 'l'] behind).bind fun read => .ok read.2 := by
    rw [readNull, hspace]
    rfl
  rw [hnull, hread]
  rfl

theorem toOption_readNull (h : readValue depth text = .ok (json, rest)) :
    (readNull text).toOption = match json with
      | .null => some rest
      | _ => none := by
  obtain ⟨c, behind, hspace, ⟨rfl, inner, items, rfl, rfl, -⟩ | ⟨rfl, inner, members, rfl, rfl, -⟩ |
    ⟨-, -, hleaf⟩⟩ := readValue_cases h
  · exact toOption_readNull_other hspace (by decide)
  · exact toOption_readNull_other hspace (by decide)
  · cases leafForm_of_readLeaf hleaf with
    | null hread =>
      rw [readNull_null hspace hread]
      rfl
    | yes _ | no _ | negative _ | quoted _ => exact toOption_readNull_other hspace (by decide)
    | digits hc _ =>
      refine toOption_readNull_other hspace ?_
      rintro rfl
      cases hc

theorem fitted?_readWordOf {word : String} (h : readString text = .ok (word, rest))
    (next : String × List Char → Except JsonFailure (Except Mismatch Json × List Char)) :
    fitted? ((readWordOf words text).bind next) =
      if words.contains word then fitted? (next (word, rest)) else none := by
  rw [fitted?_bind, toOption_readWordOf h]
  split <;> rfl

/-- The object of a choice ends where there is no further member. -/
theorem fitted?_choiceEnd {word : String} {bound : Nat} {members : List (String × Json)}
    (h : readMembers (readValue depth) bound false text = .ok (members, rest)) :
    fitted? (choiceEnd word text) = if members.isEmpty then some (.string word, rest) else none := by
  cases bound with
  | zero => cases h
  | succ bound =>
    obtain ⟨rfl, hnext⟩ | ⟨keyText, key, colon, part, found, behind, more, hnext, -, -, -, -, rfl⟩ :=
      readMembers_cases h
    · rw [choiceEnd, skipSpace_of_nextKey hnext]
      rfl
    · obtain ⟨hfirst, -⟩ | ⟨-, _, hspace, -⟩ := nextKey_cases hnext
      · cases hfirst
      · rw [choiceEnd, hspace]
        rfl

theorem word?_object_cons (key : String) (value : Json) (members : List (String × Json)) :
    word? (object ((key, value) :: members)) =
      if members.isEmpty then (match value with
        | .null => some key
        | _ => none)
      else none := by
  cases members with
  | nil => cases value <;> rfl
  | cons => cases value <;> rfl

theorem fitted?_choice_object {bound : Nat} {members : List (String × Json)}
    (hspace : skipSpace text = '\x7b' :: behind)
    (h : readMembers (readValue depth) bound true behind = .ok (members, rest)) :
    fitted? (choice words (depth + 1) text) =
      (((word? (.object members)).filter words.contains).map .string).map fun canonical =>
        (canonical, rest) := by
  rw [choice_object hspace]
  cases bound with
  | zero => cases h
  | succ bound =>
    obtain ⟨rfl, hnext⟩ | ⟨keyText, key, colon, part, found, last, more, hnext, hkey, hcolon, hfound,
      hmore, rfl⟩ := readMembers_cases h
    · have hnone : (choiceKey words behind).toOption = none := by
        obtain ⟨failure, hfailure⟩ :=
          @exists_wrongType (String × List Char) "variant identifier" '\x7d' rest
        rw [choiceKey, skipSpace_of_nextKey hnext]
        exact congrArg Except.toOption hfailure
      rw [fitted?_bind, hnone]
      rfl
    · obtain ⟨-, hquote⟩ | ⟨hfirst, -⟩ := nextKey_cases hnext
      · have hword : choiceKey words behind = readWordOf words keyText := by
          rw [choiceKey, hquote]
          rfl
        rw [hword, fitted?_readWordOf hkey, fitted?_bind, hcolon, word?_object_cons]
        dsimp only [Except.toOption, Option.bind_some]
        rw [fitted?_bind, toOption_readNull hfound]
        cases found with
        | null =>
          dsimp only [Option.bind_some]
          rw [fitted?_choiceEnd hmore]
          cases more with
          | nil =>
            simp only [List.isEmpty_nil, if_true, Option.filter_some]
            split <;> rfl
          | cons => simp
        | boolean _ | number _ | string _ | array _ | object _ => simp
      · cases hfirst

/-- The word of a choice is taken from either of its forms. -/
theorem follows_choice (words : List String) :
    Follows (choice words) fun json => ((word? json).filter words.contains).map .string := by
  intro depth text rest json h
  obtain ⟨c, behind, hspace, ⟨rfl, inner, items, rfl, rfl, -⟩ |
    ⟨rfl, inner, members, rfl, rfl, hmembers⟩ | ⟨-, -, hleaf⟩⟩ := readValue_cases h
  · exact choice_other hspace (by decide) (by decide)
  · exact fitted?_choice_object hspace hmembers
  · cases leafForm_of_readLeaf hleaf with
    | null _ | yes _ | no _ | negative _ => exact choice_other hspace (by decide) (by decide)
    | digits hc _ =>
      refine choice_other hspace ?_ ?_
      · rintro rfl
        cases hc
      · rintro rfl
        cases hc
    | quoted hread =>
      rw [choice_quote hspace, fitted?_readWordOf hread]
      simp only [word?, Option.filter_some]
      split <;> rfl

end Choices

/-! ## What shapes give

Also where the value in a text cannot be built, what a shape gives is in its canonical form. -/

section Integers
variable {negative : Bool} {digits : Nat} {exponent value : Int} {text rest : List Char}

theorem floatOf_ne_integer : floatOf negative digits exponent text ≠ .ok (.integer value, rest) := by
  unfold floatOf
  split <;> simp [here]

theorem readExponent_ne_integer :
    readExponent negative digits exponent text ≠ .ok (.integer value, rest) := by
  unfold readExponent
  split
  next down unsigned hsign =>
  split
  next => simp [here]
  next =>
    split
    next => simp [atNext]
    next =>
      split
      next => exact floatOf_ne_integer
      next => split <;> simp [here]

theorem readExponentPart_ne_integer :
    readExponentPart negative digits exponent text ≠ .ok (.integer value, rest) := by
  unfold readExponentPart
  split
  next => exact readExponent_ne_integer
  next => exact readExponent_ne_integer
  next => exact floatOf_ne_integer

theorem readFraction_ne_integer :
    readFraction negative digits exponent text ≠ .ok (.integer value, rest) := by
  unfold readFraction
  dsimp only
  split
  next => exact readExponentPart_ne_integer
  next =>
    split
    next => split <;> simp [here, atNext]
    next => exact readExponentPart_ne_integer

theorem le_of_signedNumber (h : signedNumber negative digits text = .ok (.integer value, rest)) :
    value ≤ digits := by
  unfold signedNumber at h
  split at h
  next =>
    split at h
    next =>
      obtain ⟨hvalue, -⟩ := Prod.mk.inj (Except.ok.inj h)
      obtain rfl := JsonNumber.integer.inj hvalue
      omega
    next => exact (floatOf_ne_integer h).elim
  next =>
    obtain ⟨hvalue, -⟩ := Prod.mk.inj (Except.ok.inj h)
    obtain rfl := JsonNumber.integer.inj hvalue
    exact Int.le_refl _

theorem le_of_readNumberTail {dropped : Nat}
    (h : readNumberTail negative digits dropped text = .ok (.integer value, rest)) :
    value ≤ digits := by
  unfold readNumberTail at h
  split at h
  next => exact (readFraction_ne_integer h).elim
  next => exact (readExponent_ne_integer h).elim
  next => exact (readExponent_ne_integer h).elim
  next =>
    split at h
    next => exact le_of_signedNumber h
    next => exact (floatOf_ne_integer h).elim

theorem gatherDigits_le {value count : Nat} (h : value ≤ maxUnsigned) (text : List Char) :
    (gatherDigits value count text).1 ≤ maxUnsigned := by
  fun_induction gatherDigits value count text with
  | case1 value count c rest next hnext ih => exact ih (by simp_all)
  | case2 => exact h
  | case3 => exact h

/-- An integer that is read has 64 bits. -/
theorem le_maxUnsigned_of_readNumber
    (h : readNumber negative text = .ok (.integer value, rest)) : value ≤ maxUnsigned := by
  unfold readNumber at h
  split at h
  next => cases h
  next =>
    split at h
    next => cases h
    next => exact Int.le_trans (le_of_readNumberTail h) (Int.natCast_nonneg _)
  next c more _ =>
    split at h
    next =>
      have hdigits := @gatherDigits_le 0 0 (Nat.zero_le maxUnsigned) (c :: more)
      exact Int.le_trans (le_of_readNumberTail h) (Int.ofNat_le.mpr hdigits)
    next => cases h

theorem le_maxUnsigned_of_readLeaf {c : Char}
    (h : readLeaf c text = .ok (number (.integer value), rest)) : value ≤ maxUnsigned := by
  cases leafForm_of_readLeaf h with
  | negative hread | digits _ hread => exact le_maxUnsigned_of_readNumber hread

end Integers

section Gives
variable {json : Json}

/-- A count has no sign and 64 bits. -/
theorem gives_count (h : Gives count json) : ∃ n, n ≤ maxUnsigned ∧ json = .ofNat n := by
  obtain ⟨depth, text, rest, h⟩ := h
  unfold count at h
  split at h
  next => cases h
  next c behind hspace =>
    split at h
    next =>
      obtain ⟨⟨found, last⟩, hleaf, h⟩ := bind_eq_ok_iff.mp h
      split at h
      next value rest heq =>
        obtain ⟨rfl, rfl⟩ := Prod.mk.inj heq
        split at h
        next hvalue =>
          obtain ⟨hjson, -⟩ := Prod.mk.inj (Except.ok.inj h)
          have hle := le_maxUnsigned_of_readLeaf hleaf
          refine ⟨value.toNat, by omega, ?_⟩
          rw [← Except.ok.inj hjson, ofNat, Int.toNat_of_nonneg hvalue]
        next => cases h
      next => cases h
    next =>
      obtain ⟨failure, hfailure⟩ :=
        @exists_wrongType (Except Mismatch Json × List Char) "usize" c behind
      rw [hfailure] at h
      cases h

theorem gives_text (h : Gives JsonShape.text json) : ∃ value, json = .string value := by
  obtain ⟨depth, text, rest, h⟩ := h
  unfold JsonShape.text at h
  split at h
  next => cases h
  next =>
    obtain ⟨⟨value, last⟩, -, h⟩ := bind_eq_ok_iff.mp h
    obtain ⟨hjson, -⟩ := Prod.mk.inj (Except.ok.inj h)
    exact ⟨value, (Except.ok.inj hjson).symm⟩
  next c behind _ _ =>
    obtain ⟨failure, hfailure⟩ :=
      @exists_wrongType (Except Mismatch Json × List Char) "a string" c behind
    rw [hfailure] at h
    cases h

theorem mem_of_readWordOf {words : List String} {word : String} {text rest : List Char}
    (h : readWordOf words text = .ok (word, rest)) : word ∈ words := by
  obtain ⟨⟨found, last⟩, -, h⟩ := bind_eq_ok_iff.mp h
  dsimp only at h
  split at h
  next hword =>
    obtain ⟨rfl, -⟩ := Prod.mk.inj (Except.ok.inj h)
    simpa using hword
  next => cases h

theorem mem_of_choiceKey {words : List String} {word : String} {text rest : List Char}
    (h : choiceKey words text = .ok (word, rest)) : word ∈ words := by
  unfold choiceKey at h
  split at h
  next => cases h
  next => exact mem_of_readWordOf h
  next c behind _ _ =>
    obtain ⟨failure, hfailure⟩ :=
      @exists_wrongType (String × List Char) "variant identifier" c behind
    rw [hfailure] at h
    cases h

theorem eq_of_choiceEnd {word : String} {text rest : List Char}
    (h : choiceEnd word text = .ok (.ok json, rest)) : json = .string word := by
  unfold choiceEnd at h
  split at h
  next => cases h
  next =>
    obtain ⟨hjson, -⟩ := Prod.mk.inj (Except.ok.inj h)
    exact (Except.ok.inj hjson).symm
  next => cases h

theorem gives_choice {words : List String} (h : Gives (choice words) json) :
    ∃ word ∈ words, json = .string word := by
  obtain ⟨depth, text, rest, h⟩ := h
  cases hspace : skipSpace text with
  | nil =>
    rw [choice, hspace] at h
    cases h
  | cons c behind =>
    by_cases hquote : c = '"'
    · subst hquote
      rw [choice_quote hspace] at h
      obtain ⟨⟨word, last⟩, hword, h⟩ := bind_eq_ok_iff.mp h
      obtain ⟨hjson, -⟩ := Prod.mk.inj (Except.ok.inj h)
      exact ⟨word, mem_of_readWordOf hword, (Except.ok.inj hjson).symm⟩
    · by_cases hobject : c = '\x7b'
      · subst hobject
        cases depth with
        | zero =>
          rw [choice, hspace] at h
          cases h
        | succ depth =>
          rw [choice_object hspace] at h
          obtain ⟨⟨word, colon⟩, hword, h⟩ := bind_eq_ok_iff.mp h
          obtain ⟨⟨⟨⟩, part⟩, -, h⟩ := bind_eq_ok_iff.mp h
          obtain ⟨last, -, h⟩ := bind_eq_ok_iff.mp h
          exact ⟨word, mem_of_choiceKey hword, eq_of_choiceEnd h⟩
      · have hnone := @choice_other words c depth text behind hspace hquote hobject
        rw [h] at hnone
        cases hnone

end Gives

end JsonShape
end QueryLocator
