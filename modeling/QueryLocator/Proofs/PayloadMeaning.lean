import QueryLocator.Proofs.JsonNormalForm
import QueryLocator.Proofs.NumeralWriting
import QueryLocator.Proofs.PayloadReading
import QueryLocator.QueryDocument

/-! # What setting out variables keeps

The text of variables that are set out over lines stands for the payload that they were typed as: the
same structure, the same keys in the order in which they were typed, the same strings
(`denotes_formatVariables`).  Of its numerals the plain ones keep their values.  Any other numeral
becomes the text of the 64-bit number that it is read as, which need not have its value
(`formatVariables_changes_value`).
-/
namespace QueryLocator.Json

open Decimal Grammar

/-! ## Strings -/

theorem mem_escapes_of_simpleEscape? {c d : Char} (h : simpleEscape? c = some d) :
    (c, d) ∈ escapes := by
  unfold simpleEscape? at h
  split at h <;> first
    | (obtain rfl := Option.some.inj h; decide)
    | cases h

theorem isHexDigit_hexDigit {n : ℕ} (h : n < 16) : IsHexDigit (hexDigit n) n := by
  have hall : ∀ m < 16, hexDigits[m]? = some (hexDigit m, (hexDigit m).toUpper) := by decide
  exact ⟨_, hall n h, Or.inl rfl⟩

/-- Escaping keeps the code units of a string. -/
theorem isString_escaped (characters : List Char) :
    IsString (characters.flatMap escapeChar) (characters.flatMap unitsOf) := by
  induction characters with
  | nil => exact .empty
  | cons c characters ih =>
    rw [List.flatMap_cons, List.flatMap_cons]
    rcases escapeChar_cases c with ⟨letter, hc, -, hletter⟩ | ⟨hcontrol, hc⟩ |
      ⟨hquote, hbackslash, hcontrol, hc⟩
    · have hmem := mem_escapes_of_simpleEscape? hletter
      rw [hc, (simpleEscape?_of_mem hmem).2.2]
      exact .letter hmem ih
    · have hcode : unitsOf c = [((0 * 16 + 0) * 16 + c.toNat / 16) * 16 + c.toNat % 16] := by
        rw [unitsOf, if_pos (by omega)]
        congr 1
        omega
      have hzero : IsHexDigit '0' 0 := ⟨_, rfl, Or.inl rfl⟩
      rw [hc, hcode]
      exact .code hzero hzero (isHexDigit_hexDigit (by omega)) (isHexDigit_hexDigit (by omega)) ih
    · rw [hc]
      exact .plain hquote hbackslash (Nat.le_of_not_lt hcontrol) ih

/-! ## Numerals -/

/-- How a numeral is kept: a plain one keeps its value, and each becomes the text of the number that
it is read as when it stands alone. -/
def Kept (numeral numeral' : Numeral) : Prop :=
  (numeral.IsPlain → numeral'.value = numeral.value) ∧
    ∃ value, Json.parse (String.ofList numeral.text) = .ok (.number value) ∧
      numeral'.text = value.text

theorem parse_of_readsAs {numeral : Numeral} {value : JsonNumber} (h : ReadsAs numeral value) :
    Json.parse (String.ofList numeral.text) = .ok (.number value) := by
  obtain ⟨c, more, htext, hspace, hc, hleaf⟩ := exists_cons_text numeral
  simp only [List.mem_cons, List.not_mem_nil, or_false, not_or] at hc
  have hread := hleaf []
  rw [h [] endsNumber_nil, List.append_nil] at hread
  refine parse_eq_ok_iff.mpr ⟨[], ?_, rfl⟩
  rw [String.toList_ofList, htext, readValue_leaf hspace hc.1 hc.2.2, hread]
  rfl

/-- A number that is read is written as a numeral that keeps the one it was read from. -/
theorem exists_kept {numeral : Numeral} {value : JsonNumber} (h : ReadsAs numeral value) :
    ∃ numeral' : Numeral, numeral'.text = value.text ∧ Kept numeral numeral' := by
  obtain ⟨numeral', htext, hvalue⟩ := exists_numeral value
  exact ⟨numeral', htext, fun hplain => hvalue.trans (value_of_readsAs hplain h), value,
    parse_of_readsAs h, htext⟩

/-! ## Keys -/

mutual

/-- A payload without repeated keys is read as a value without repeated keys. -/
theorem hasUniqueKeys_of_reads {payload : Payload} {value : Json} (h : Reads payload value)
    (hunique : payload.UniqueKeys) : value.everywhere hasUniqueKeys = true := by
  match h with
  | .null | .boolean _ | .number _ | .string _ => rfl
  | .array hitems =>
    rw [Payload.UniqueKeys] at hunique
    simp only [everywhere, hasUniqueKeys, Bool.true_and]
    exact itemsHaveUniqueKeys_of_reads hitems hunique
  | .object hmembers =>
    rw [Payload.UniqueKeys] at hunique
    obtain ⟨hkeys, hvalues⟩ := membersHaveUniqueKeys_of_reads hmembers hunique.2
    simp only [everywhere, hasUniqueKeys, Bool.and_eq_true, decide_eq_true_eq]
    rw [← hkeys] at hunique
    exact ⟨hunique.1.of_map, hvalues⟩
termination_by structural h

theorem itemsHaveUniqueKeys_of_reads {items : List Payload} {values : List Json}
    (h : ReadsItems items values) (hunique : Payload.UniqueKeysInItems items) :
    itemsEverywhere hasUniqueKeys values = true := by
  match h with
  | .nil => rfl
  | .cons hitem hitems =>
    rw [Payload.UniqueKeysInItems] at hunique
    simp only [itemsEverywhere, Bool.and_eq_true]
    exact ⟨hasUniqueKeys_of_reads hitem hunique.1, itemsHaveUniqueKeys_of_reads hitems hunique.2⟩
termination_by structural h

theorem membersHaveUniqueKeys_of_reads {members : List (List ℕ × Payload)}
    {values : List (String × Json)} (h : ReadsMembers members values)
    (hunique : Payload.UniqueKeysInMembers members) :
    ((values.map Prod.fst).map fun key => key.toList.flatMap unitsOf) = members.map Prod.fst ∧
      membersEverywhere hasUniqueKeys values = true := by
  match h with
  | .nil => exact ⟨rfl, rfl⟩
  | .cons hkey hvalue hmembers =>
    rw [Payload.UniqueKeysInMembers] at hunique
    obtain ⟨hkeys, hvalues⟩ := membersHaveUniqueKeys_of_reads hmembers hunique.2
    simp only [membersEverywhere, Bool.and_eq_true, List.map_cons, hkey, hkeys]
    exact ⟨trivial, hasUniqueKeys_of_reads hvalue hunique.1, hvalues⟩
termination_by structural h

end

/-! ## Pretty texts -/

theorem isBlank_nil : IsBlank [] := by
  simp [IsBlank]

theorem isBlank_newLine (depth : ℕ) : IsBlank (newLine depth) := by
  intro c hc
  rcases List.mem_cons.mp hc with rfl | hc
  · decide
  · rw [List.eq_of_mem_replicate hc]
    decide

theorem isBlank_space : IsBlank [' '] := by
  simp [IsBlank]

/-- A text of a value in front of which there is white space, and behind which there may be more. -/
def Opens (text : List Char) (payload : Payload) : Prop :=
  ∀ space, IsBlank space → IsElement (text ++ space) payload

theorem opens_newLine {text : List Char} {payload : Payload} (h : IsValue text payload) (depth : ℕ) :
    Opens (newLine depth ++ text) payload := by
  intro space hspace
  rw [List.append_assoc]
  exact .intro (isBlank_newLine depth) h hspace

theorem opens_space {text : List Char} {payload : Payload} (h : IsValue text payload) :
    Opens (' ' :: text) payload := by
  intro space hspace
  exact .intro isBlank_space h hspace

-- The induction is on how the payload is read.  Items and members behind the first one each stand
-- behind a comma and a new line, so they are added to a text of the ones before them.
mutual

/-- **The pretty text of a value stands for the payload that it was read from.** -/
theorem exists_isValue_prettyAt {payload : Payload} {value : Json} (h : Reads payload value)
    (depth : ℕ) :
    ∃ payload', IsValue (value.prettyAt depth) payload' ∧ SameData Kept payload payload' := by
  match h with
  | .null => exact ⟨_, .null, .null⟩
  | .boolean true => exact ⟨_, .yes, .boolean true⟩
  | .boolean false => exact ⟨_, .no, .boolean false⟩
  | .number hnumeral =>
    obtain ⟨numeral', htext, hkept⟩ := exists_kept hnumeral
    refine ⟨_, ?_, .number hkept⟩
    rw [prettyAt, leafText, ← htext]
    exact .number numeral'
  | .string hunits =>
    refine ⟨_, ?_, .string _⟩
    rw [← hunits, prettyAt, leafText, stringText, List.cons_append]
    exact .string (isString_escaped _)
  | .array .nil => exact ⟨_, .emptyArray isBlank_nil, .array .nil⟩
  | .array (.cons hitem hitems) =>
    obtain ⟨item', htext, hsame⟩ := exists_isValue_prettyAt hitem (depth + 1)
    obtain ⟨items', hmore, hsameMore⟩ := exists_isItems_pretty hitems (depth + 1)
    refine ⟨_, ?_, .array (.cons hsame hsameMore)⟩
    have harray := IsValue.array (hmore (opens_newLine htext (depth + 1)) (isBlank_newLine depth))
    simpa [prettyAt] using harray
  | .object .nil => exact ⟨_, .emptyObject isBlank_nil, .object .nil⟩
  | .object (.cons hkey hvalue hmembers) =>
    obtain ⟨value', htext, hsame⟩ := exists_isValue_prettyAt hvalue (depth + 1)
    obtain ⟨members', hmore, hsameMore⟩ := exists_isMembers_pretty hmembers (depth + 1)
    refine ⟨_, ?_, .object (.cons hsame hsameMore)⟩
    have hobject := IsValue.object (hmore (isBlank_newLine (depth + 1)) hkey (opens_space htext)
      (isBlank_newLine depth))
    simpa [prettyAt, stringText] using hobject
termination_by structural h

/-- Items behind a first one. -/
theorem exists_isItems_pretty {items : List Payload} {values : List Json}
    (h : ReadsItems items values) (depth : ℕ) :
    ∃ items', (∀ {text payload space}, Opens text payload → IsBlank space →
        IsItems (text ++ (prettyItems depth values ++ space)) (payload :: items')) ∧
      SameItems Kept items items' := by
  match h with
  | .nil => exact ⟨[], fun hfirst hspace => .last (hfirst _ hspace), .nil⟩
  | .cons hitem hitems =>
    obtain ⟨item', htext, hsame⟩ := exists_isValue_prettyAt hitem depth
    obtain ⟨items', hmore, hsameMore⟩ := exists_isItems_pretty hitems depth
    refine ⟨_, ?_, .cons hsame hsameMore⟩
    intro text payload space hfirst hspace
    have hitems := IsItems.next (hfirst [] isBlank_nil) (hmore (opens_newLine htext depth) hspace)
    simpa [prettyItems] using hitems
termination_by structural h

/-- Members behind a first one. -/
theorem exists_isMembers_pretty {members : List (List ℕ × Payload)} {values : List (String × Json)}
    (h : ReadsMembers members values) (depth : ℕ) :
    ∃ members', (∀ {before text space : List Char} {key : String} {units : List ℕ} {payload : Payload},
        IsBlank before → key.toList.flatMap unitsOf = units → Opens text payload → IsBlank space →
        IsMembers (before ++ (stringText key ++ ':' :: (text ++ (prettyMembers depth values ++ space))))
          ((units, payload) :: members')) ∧
      SameMembers Kept members members' := by
  match h with
  | .nil =>
    refine ⟨[], ?_, .nil⟩
    intro before text space key units payload hbefore hkey hfirst hspace
    have hmembers := IsMembers.last hbefore (isString_escaped key.toList) isBlank_nil (hfirst _ hspace)
    rw [hkey] at hmembers
    simpa [prettyMembers, stringText] using hmembers
  | .cons hkey hvalue hmembers =>
    obtain ⟨value', htext, hsame⟩ := exists_isValue_prettyAt hvalue depth
    obtain ⟨members', hmore, hsameMore⟩ := exists_isMembers_pretty hmembers depth
    refine ⟨_, ?_, .cons hsame hsameMore⟩
    intro before text space key units payload hbefore hfirstKey hfirst hspace
    have hmembers := IsMembers.next hbefore (isString_escaped key.toList) isBlank_nil
      (hfirst [] isBlank_nil) (hmore (isBlank_newLine depth) hkey (opens_space htext) hspace)
    rw [hfirstKey] at hmembers
    simpa [prettyMembers, stringText] using hmembers
termination_by structural h

end

/-! ## Whole texts -/

/-- **Setting out variables keeps what they mean.**  Variables that are no JSON that can be read stay as
they are.  Others get a text with the same structure, the same keys in the same order and the same
strings, whose numerals are kept as `Kept` says. -/
theorem denotes_formatVariables {raw : String} {payload : Payload} (h : Denotes raw payload)
    (hunique : payload.UniqueKeys) :
    (∃ failure, Json.parse raw = .error failure ∧ formatVariables raw = raw) ∨
      ∃ json payload', Json.parse raw = .ok json ∧ Denotes (formatVariables raw) payload' ∧
        SameData Kept payload payload' := by
  unfold formatVariables
  cases hparse : Json.parse raw with
  | error failure => exact Or.inl ⟨failure, rfl, rfl⟩
  | ok json =>
    right
    have hreads := reads_of_denotes h hparse
    have hnormal : json.normalize = json :=
      normalize_of_unique json (hasUniqueKeys_of_reads hreads hunique)
    obtain ⟨payload', htext, hsame⟩ := exists_isValue_prettyAt hreads 0
    refine ⟨json, payload', rfl, ?_, hsame⟩
    have helement := IsElement.intro isBlank_nil htext isBlank_nil
    rw [List.nil_append, List.append_nil] at helement
    dsimp only
    rw [Denotes, hnormal, renderPretty, String.toList_ofList]
    exact helement

/-- Variables with a decimal that has a zero to spare, and with a surrogate pair that is escaped. -/
def pairVariables : String :=
  "\x7b\"a\":[-0.50,\"\\ud83d\\ude00\"]\x7d"

/-- The decimal of the variables. -/
def spareNumeral : Numeral where
  negative := true
  whole := ['0']
  fraction := ['5', '0']
  exponent? := none

/-- What the variables stand for. -/
def pairPayload : Payload :=
  .object [([0x61], .array [.number spareNumeral, .string [0xd83d, 0xde00]])]

theorem denotes_formatVariables_of_pair :
    Denotes pairVariables pairPayload ∧ pairPayload.UniqueKeys ∧
      ((∃ failure, Json.parse pairVariables = .error failure ∧
          formatVariables pairVariables = pairVariables) ∨
        ∃ json payload', Json.parse pairVariables = .ok json ∧
          Denotes (formatVariables pairVariables) payload' ∧ SameData Kept pairPayload payload') := by
  have hdigit : ∀ c n, hexDigits[n]? = some (c, c.toUpper) → IsHexDigit c n :=
    fun _ _ h => ⟨_, h, Or.inl rfl⟩
  have hpair : IsString ['\\', 'u', 'd', '8', '3', 'd', '\\', 'u', 'd', 'e', '0', '0']
      [0xd83d, 0xde00] :=
    .code (hdigit 'd' 13 rfl) (hdigit '8' 8 rfl) (hdigit '3' 3 rfl) (hdigit 'd' 13 rfl)
      (.code (hdigit 'd' 13 rfl) (hdigit 'e' 14 rfl) (hdigit '0' 0 rfl) (hdigit '0' 0 rfl) .empty)
  have hkey : IsString ['a'] [0x61] := .plain (by decide) (by decide) (by decide) .empty
  have hitems := IsItems.next (.intro isBlank_nil (.number spareNumeral) isBlank_nil)
    (.last (.intro isBlank_nil (.string hpair) isBlank_nil))
  have hmembers := IsMembers.last isBlank_nil hkey isBlank_nil
    (.intro isBlank_nil (.array hitems) isBlank_nil)
  have hdenotes : Denotes pairVariables pairPayload :=
    IsElement.intro isBlank_nil (.object hmembers) isBlank_nil
  have hunique : pairPayload.UniqueKeys :=
    ⟨List.nodup_singleton _, ⟨trivial, trivial, trivial⟩, trivial⟩
  exact ⟨hdenotes, hunique, denotes_formatVariables hdenotes hunique⟩

/-! ## Numerals that change -/

/-- A numeral whose digits are all zeros stands for zero. -/
theorem value_of_zeros {numeral : Numeral}
    (h : ∀ c ∈ numeral.text, c.isDigit = true → c = '0') : numeral.value = 0 := by
  have hdigits : ∀ c ∈ numeral.whole ++ numeral.fraction, c = '0' := by
    intro c hc
    have htext : c ∈ numeral.text := by
      have hunsigned : c ∈ numeral.unsigned := by
        rcases List.mem_append.mp hc with hc | hc
        · exact List.mem_append_left _ hc
        · refine List.mem_append_right _ (List.mem_append_left _ ?_)
          unfold Numeral.fractionText
          split
          next hnil =>
            rw [hnil] at hc
            cases hc
          next => exact List.mem_cons_of_mem _ hc
      unfold Numeral.text
      split
      · exact List.mem_cons_of_mem _ hunsigned
      · exact hunsigned
    have hdigit : c.isDigit = true := by
      rcases List.mem_append.mp hc with hc | hc
      · exact numeral.isDigit_whole c hc
      · exact numeral.isDigit_fraction c hc
    exact h c htext hdigit
  have hcoefficient : numeral.coefficient = 0 := by
    rw [Numeral.coefficient, List.eq_replicate_of_mem hdigits, Nat.ofDigitChars_replicate_zero,
      Nat.mul_zero]
  exact value_of_coefficient_zero hcoefficient

/-- The characters of a numeral stand in the text that stands for it. -/
theorem digits_of_denotes {raw : String} {numeral : Numeral} {holds : Char → Prop}
    (h : Denotes raw (.number numeral)) (hraw : ∀ c ∈ raw.toList, holds c) :
    ∀ c ∈ numeral.text, holds c := by
  unfold Denotes at h
  generalize raw.toList = characters at h hraw
  cases h with
  | intro _ hvalue _ =>
    cases hvalue
    exact fun c hc => hraw c (List.mem_append_right _ (List.mem_append_left _ hc))

/-- A number other than zero that is smaller than any of its format. -/
def tinyNumeral : Numeral where
  negative := false
  whole := ['1']
  fraction := []
  exponent? := some { letter := 'e', sign := ['-'], digits := ['4', '0', '0'] }

/-- A number that is too small for its format becomes zero, so not every numeral keeps its value. -/
theorem formatVariables_changes_value :
    ¬∀ raw payload, Denotes raw payload → payload.UniqueKeys → (∃ json, Json.parse raw = .ok json) →
      ∃ payload', Denotes (formatVariables raw) payload' ∧
        SameData (fun numeral numeral' => numeral'.value = numeral.value) payload payload' := by
  intro h
  have hformat : formatVariables "1e-400" = "0.0" := by decide +kernel
  have hparse : ∃ json, Json.parse "1e-400" = .ok json := by
    cases hread : Json.parse "1e-400" with
    | ok json => exact ⟨json, rfl⟩
    | error failure =>
      have hkept : formatVariables "1e-400" = "1e-400" := by rw [formatVariables, hread]
      rw [hformat] at hkept
      exact absurd hkept (by decide)
  have hdenotes : Denotes "1e-400" (.number tinyNumeral) :=
    IsElement.intro isBlank_nil (.number tinyNumeral) isBlank_nil
  obtain ⟨payload', htext, hsame⟩ := h _ _ hdenotes trivial hparse
  rw [hformat] at htext
  -- what is read back is a zero, and the numeral stands for a number that is none
  cases hsame with
  | @number _ numeral' hvalue =>
    have hdigits : ∀ c ∈ "0.0".toList, c.isDigit = true → c = '0' := by
      have hraw : "0.0".toList = ['0', '.', '0'] := rfl
      intro c hc hdigit
      rw [hraw] at hc
      simp only [List.mem_cons, List.not_mem_nil, or_false] at hc
      rcases hc with rfl | rfl | rfl
      · rfl
      · cases hdigit
      · rfl
    have hzero : numeral'.value = 0 := value_of_zeros (digits_of_denotes htext hdigits)
    have hcoefficient : tinyNumeral.coefficient = 1 := rfl
    rw [hzero, Numeral.value, hcoefficient] at hvalue
    have hpositive := ten_zpow_pos tinyNumeral.power
    have hsign : tinyNumeral.negative = false := rfl
    rw [hsign, if_neg Bool.false_ne_true, one_mul, Nat.cast_one, one_mul] at hvalue
    exact (ne_of_gt hpositive) hvalue.symm

end QueryLocator.Json
