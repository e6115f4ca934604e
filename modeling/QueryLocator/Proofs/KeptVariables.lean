import QueryLocator.Proofs.JsonNormalForm
import QueryLocator.Proofs.PayloadReading
import QueryLocator.QueryDocument

/-! # Variables that are set out once and for all

Variables that are no JSON are kept as they were typed.  Others whose numbers are integers of 64 bits
are set out as a text that is read as the same value, with each key once, and setting out that text
again changes nothing.  So the variables of a document that was edited with such payloads can be
attached to it again without changing it (`formatVariables_settles`).
-/
namespace QueryLocator

open Json Grammar

/-! ## Integers -/

/-- A numeral of an integer of 64 bits, with or without a sign, that is not minus zero. -/
def Grammar.Numeral.IsSmallInteger (numeral : Numeral) : Prop :=
  numeral.IsInteger ∧ -2 ^ 63 ≤ numeral.value ∧ numeral.value < 2 ^ 64 ∧
    (numeral.negative = true → numeral.coefficient ≠ 0)

namespace Grammar.Payload

mutual

/-- Whether all numerals of a payload have a property. -/
def Numerals (holds : Numeral → Prop) : Payload → Prop
  | number numeral => holds numeral
  | array items => NumeralsOfItems holds items
  | object members => NumeralsOfMembers holds members
  | null | boolean _ | string _ => True

/-- Whether all numerals of items have a property. -/
def NumeralsOfItems (holds : Numeral → Prop) : List Payload → Prop
  | [] => True
  | item :: items => item.Numerals holds ∧ NumeralsOfItems holds items

/-- Whether all numerals of the values of members have a property. -/
def NumeralsOfMembers (holds : Numeral → Prop) : List (List ℕ × Payload) → Prop
  | [] => True
  | (_, value) :: members => value.Numerals holds ∧ NumeralsOfMembers holds members

end

end Grammar.Payload

namespace Json

/-- An integer that fits is read as an integer. -/
theorem isIntegral_of_readsAs {numeral : Numeral} {value : JsonNumber} (h : ReadsAs numeral value)
    (hsmall : numeral.IsSmallInteger) : isIntegral (.number value) = true := by
  obtain ⟨hinteger, hlow, hhigh, hzero⟩ := hsmall
  obtain ⟨value?, hsettles, hkind⟩ := exists_settles_readNumber numeral numeral.negative
  have hvalue := h.eq_some hsettles
  have hmax : maxUnsigned = 2 ^ 64 - 1 := rfl
  have hpow : Nat.pow 2 63 = 2 ^ 63 := rfl
  have hlow' : Int.pow 2 63 = 2 ^ 63 := rfl
  have hhigh' : Int.pow 2 64 = 2 ^ 64 := rfl
  rw [value_of_isInteger hinteger] at hlow hhigh
  cases hnegative : numeral.negative with
  | false =>
    rw [hnegative, if_neg Bool.false_ne_true, one_mul] at hhigh
    have hcoefficient : numeral.coefficient < 2 ^ 64 := by exact_mod_cast hhigh
    have hsigned := (hkind (by omega)).1 hinteger
    rw [hvalue, hnegative] at hsigned
    obtain rfl := Option.some.inj hsigned
    simp only [isIntegral, Bool.and_eq_true, decide_eq_true_eq]
    omega
  | true =>
    rw [hnegative, if_pos rfl, neg_one_mul, neg_le_neg_iff] at hlow
    have hcoefficient : numeral.coefficient ≤ 2 ^ 63 := by exact_mod_cast hlow
    have hpos := hzero hnegative
    have hsigned := (hkind (by omega)).1 hinteger
    rw [hvalue, hnegative, signed?, if_pos rfl, if_pos ⟨by omega, by omega⟩] at hsigned
    obtain rfl := Option.some.inj hsigned
    simp only [isIntegral, Bool.and_eq_true, decide_eq_true_eq]
    omega

mutual

/-- A payload of integers that fit is read as a value of integers. -/
theorem isIntegral_of_reads {payload : Payload} {value : Json} (h : Reads payload value)
    (hsmall : payload.Numerals Numeral.IsSmallInteger) : value.everywhere isIntegral = true := by
  match h with
  | .null | .boolean _ | .string _ => rfl
  | .number hnumeral => exact isIntegral_of_readsAs hnumeral hsmall
  | .array hitems =>
    simp only [everywhere, isIntegral, Bool.true_and]
    exact itemsAreIntegral_of_reads hitems hsmall
  | .object hmembers =>
    simp only [everywhere, isIntegral, Bool.true_and]
    exact membersAreIntegral_of_reads hmembers hsmall
termination_by structural h

theorem itemsAreIntegral_of_reads {items : List Payload} {values : List Json}
    (h : ReadsItems items values) (hsmall : Payload.NumeralsOfItems Numeral.IsSmallInteger items) :
    itemsEverywhere isIntegral values = true := by
  match h with
  | .nil => rfl
  | .cons hitem hitems =>
    simp only [itemsEverywhere, Bool.and_eq_true]
    exact ⟨isIntegral_of_reads hitem hsmall.1, itemsAreIntegral_of_reads hitems hsmall.2⟩
termination_by structural h

theorem membersAreIntegral_of_reads {members : List (List ℕ × Payload)}
    {values : List (String × Json)} (h : ReadsMembers members values)
    (hsmall : Payload.NumeralsOfMembers Numeral.IsSmallInteger members) :
    membersEverywhere isIntegral values = true := by
  match h with
  | .nil => rfl
  | .cons _ hvalue hmembers =>
    simp only [membersEverywhere, Bool.and_eq_true]
    exact ⟨isIntegral_of_reads hvalue hsmall.1, membersAreIntegral_of_reads hmembers hsmall.2⟩
termination_by structural h

end

end Json

/-! ## Setting out twice -/

section Settling
variable {raw : String} {json : Json}

theorem formatVariables_of_error {failure : JsonFailure} (h : Json.parse raw = .error failure) :
    formatVariables raw = raw := by
  rw [formatVariables, h]

theorem formatVariables_of_ok (h : Json.parse raw = .ok json) :
    formatVariables raw = json.normalize.renderPretty := by
  rw [formatVariables, h]

/-- What is set out is read as the normal form of what was typed. -/
theorem parse_formatVariables (h : Json.parse raw = .ok json)
    (hintegral : json.everywhere isIntegral = true) :
    Json.parse (formatVariables raw) = .ok json.normalize := by
  obtain ⟨rest, hread, -⟩ := parse_eq_ok_iff.mp h
  have hnesting := Nat.le_trans (nesting_normalize_le json) (nesting_of_readValue hread)
  rw [formatVariables_of_ok h]
  exact parse_renderPretty (isIntegral_normalize json hintegral) hnesting

theorem formatVariables_formatVariables (h : Json.parse raw = .ok json)
    (hintegral : json.everywhere isIntegral = true) :
    formatVariables (formatVariables raw) = formatVariables raw := by
  rw [formatVariables_of_ok (parse_formatVariables h hintegral), normalize_normalize,
    formatVariables_of_ok h]

end Settling

/-! ## Edited documents -/

/-- A payload that is no JSON, or whose numbers are integers of 64 bits. -/
def IsSettled (raw : String) : Prop :=
  ∀ json, Json.parse raw = .ok json → json.everywhere isIntegral = true

theorem formatVariables_idem_of_isSettled {raw : String} (h : IsSettled raw) :
    formatVariables (formatVariables raw) = formatVariables raw := by
  cases hparse : Json.parse raw with
  | error failure => rw [formatVariables_of_error hparse, formatVariables_of_error hparse]
  | ok json => exact formatVariables_formatVariables hparse (h json hparse)

namespace QueryDocument

/-- The documents that come about by edits, with settled payloads for variables. -/
inductive Edited : QueryDocument → Prop
  | ofText (text : String) : Edited (ofText text)
  | replace {document : QueryDocument} (h : Edited document) (text : String) :
      Edited (document.replace text)
  | withVariables {document : QueryDocument} (h : Edited document) {raw : String}
      (hraw : IsSettled raw) : Edited (document.withVariables raw)

/-- The variables of an edited document are set out already: no edit changes that. -/
theorem Edited.formatVariables_eq {document : QueryDocument} {kept : String}
    (h : Edited document) (hkept : document.variablesText = some kept) :
    formatVariables kept = kept := by
  induction h with
  | ofText => cases hkept
  | replace _ _ ih => exact ih hkept
  | withVariables _ hraw _ =>
    obtain rfl := Option.some.inj hkept
    exact formatVariables_idem_of_isSettled hraw

theorem withVariables_of_eq {document : QueryDocument} {kept : String}
    (hkept : document.variablesText = some kept)
    (h : formatVariables kept = kept) : document.withVariables kept = document := by
  rw [withVariables, h, ← hkept]

end QueryDocument

/-- **Variables are set out once and for all.**  Payloads that are no JSON stay as they are.  Payloads
of integers become a text that is read as the same value, with each key once and in the order of the
first places, and that text stays as it is.  Such a payload is one whose numerals are integers of 64
bits.  Hence the variables of an edited document can be attached to it again. -/
theorem formatVariables_settles :
    (∀ raw failure, Json.parse raw = .error failure → formatVariables raw = raw) ∧
    (∀ raw json, Json.parse raw = .ok json → json.everywhere isIntegral = true →
      (∃ condensed, Json.parse (formatVariables raw) = .ok condensed ∧ Condensed json condensed) ∧
      formatVariables (formatVariables raw) = formatVariables raw) ∧
    (∀ raw payload json, Denotes raw payload → payload.Numerals Numeral.IsSmallInteger →
      Json.parse raw = .ok json → json.everywhere isIntegral = true) ∧
    ∀ document kept, QueryDocument.Edited document →
      document.variablesText = some kept → document.withVariables kept = document := by
  refine ⟨?_, ?_, ?_, ?_⟩
  · intro raw failure h
    exact formatVariables_of_error h
  · intro raw json h hintegral
    exact ⟨⟨_, parse_formatVariables h hintegral, condensed_normalize json⟩,
      formatVariables_formatVariables h hintegral⟩
  · intro raw payload json hdenotes hsmall h
    exact isIntegral_of_reads (reads_of_denotes hdenotes h) hsmall
  · intro document kept hedited hkept
    exact QueryDocument.withVariables_of_eq hkept (hedited.formatVariables_eq hkept)

/-- Variables with a key that comes twice. -/
def repeatedVariables : Json :=
  .object [("b", .number (.integer 1)), ("a", .array [.number (.integer (-2))]), ("b", .string "x")]

/-- The variables typed on one line, a text that is no JSON, and a document that has had both. -/
theorem formatVariables_settles_of_repeated :
    (∃ condensed, Json.parse (formatVariables (repeatedVariables.render ++ "\n")) = .ok condensed ∧
      Condensed repeatedVariables condensed) ∧
    formatVariables (formatVariables (repeatedVariables.render ++ "\n")) =
      formatVariables (repeatedVariables.render ++ "\n") ∧
    formatVariables "\x7b id: 1" = "\x7b id: 1" ∧
    ((((QueryDocument.ofText "query A \x7b a \x7d").withVariables "\x7b id: 1").withVariables
        (repeatedVariables.render ++ "\n")).replace "").withVariables
        (formatVariables (repeatedVariables.render ++ "\n")) =
      (((QueryDocument.ofText "query A \x7b a \x7d").withVariables "\x7b id: 1").withVariables
        (repeatedVariables.render ++ "\n")).replace "" := by
  obtain ⟨hinvalid, hvalid, -, hdocuments⟩ := formatVariables_settles
  have hintegral : repeatedVariables.everywhere isIntegral = true := by decide
  have hparse := parse_render_line hintegral (by decide)
  have hrefused : ∃ failure, Json.parse "\x7b id: 1" = .error failure := by
    have hnot : (Json.parse "\x7b id: 1").isOk = false := by decide +kernel
    cases hread : Json.parse "\x7b id: 1" with
    | error failure => exact ⟨failure, rfl⟩
    | ok json =>
      rw [hread] at hnot
      cases hnot
  obtain ⟨failure, hfailure⟩ := hrefused
  obtain ⟨hcondensed, hagain⟩ := hvalid _ _ hparse hintegral
  have hsettledInvalid : IsSettled "\x7b id: 1" := by
    intro json hread
    rw [hfailure] at hread
    cases hread
  have hsettledValid : IsSettled (repeatedVariables.render ++ "\n") := by
    intro json hread
    rw [hparse] at hread
    obtain rfl := Except.ok.inj hread
    exact hintegral
  exact ⟨hcondensed, hagain, hinvalid _ _ hfailure, hdocuments _ _
    (((QueryDocument.Edited.ofText _).withVariables hsettledInvalid).withVariables hsettledValid
      |>.replace "") rfl⟩

end QueryLocator
