import QueryLocator.Proofs.JsonBrackets
import QueryLocator.Proofs.NumeralReading

/-! # What texts of payloads are read as

A text of the grammar that is read at all is read as what it stands for: the value has the structure of
the payload, its strings have the code units of the payload, and its numbers are what the numerals are
read as (`reads_of_denotes`).  The reader may refuse a text of the grammar, for a number out of range,
half of a surrogate pair or too many brackets, so each statement begins with a value that was read.
-/
namespace QueryLocator.Json

open Grammar JsonShape

/-! ## Strings -/

theorem hexValue?_of_isHexDigit {c : Char} {n : ℕ} (h : IsHexDigit c n) :
    hexValue? c = some n ∧ n < 16 := by
  obtain ⟨digits, hdigits, hc⟩ := h
  have hn : n < 16 := (List.getElem?_eq_some_iff.mp hdigits).1
  refine ⟨?_, hn⟩
  have hall : ∀ m < 16, ∀ digits ∈ hexDigits[m]?, hexValue? digits.1 = some m ∧
      hexValue? digits.2 = some m := by decide
  have hvalues := hall n hn digits hdigits
  rcases hc with rfl | rfl
  · exact hvalues.1
  · exact hvalues.2

/-- Four hexadecimal digits are read as their code. -/
theorem readHex_of_isHexDigit {a b c d : Char} {i j k l : ℕ} (ha : IsHexDigit a i)
    (hb : IsHexDigit b j) (hc : IsHexDigit c k) (hd : IsHexDigit d l) (rest : List Char) :
    readHex (a :: b :: c :: d :: rest) = .ok (((i * 16 + j) * 16 + k) * 16 + l, rest) ∧
      ((i * 16 + j) * 16 + k) * 16 + l < 0x10000 := by
  obtain ⟨ha, hi⟩ := hexValue?_of_isHexDigit ha
  obtain ⟨hb, hj⟩ := hexValue?_of_isHexDigit hb
  obtain ⟨hc, hk⟩ := hexValue?_of_isHexDigit hc
  obtain ⟨hd, hl⟩ := hexValue?_of_isHexDigit hd
  refine ⟨?_, by omega⟩
  simp only [readHex, ha, hb, hc, hd]

theorem simpleEscape?_of_mem {c d : Char} (h : (c, d) ∈ escapes) :
    simpleEscape? c = some d ∧ c ≠ 'u' ∧ unitsOf d = [d.toNat] := by
  have hall : ∀ pair ∈ escapes,
      simpleEscape? pair.1 = some pair.2 ∧ pair.1 ≠ 'u' ∧ unitsOf pair.2 = [pair.2.toNat] := by
    decide
  exact hall (c, d) h

theorem toNat_ofNat_of_isValidChar {n : ℕ} (h : n.isValidChar) : (Char.ofNat n).toNat = n := by
  rw [Char.ofNat, dif_pos h]
  rfl

/-- A code that is no surrogate is a character of one code unit. -/
theorem unitsOf_ofNat {code : ℕ} (hcode : code < 0x10000)
    (h : ¬(0xD800 ≤ code ∧ code ≤ 0xDFFF)) : unitsOf (Char.ofNat code) = [code] := by
  have hvalid : code.isValidChar := by
    unfold Nat.isValidChar
    omega
  unfold unitsOf
  rw [toNat_ofNat_of_isValidChar hvalid, if_pos hcode]

/-- A pair of surrogates is a character of two code units. -/
theorem unitsOf_pair {first second : ℕ} (hfirst : 0xD800 ≤ first ∧ first ≤ 0xDBFF)
    (hsecond : 0xDC00 ≤ second ∧ second ≤ 0xDFFF) :
    unitsOf (Char.ofNat ((first - 0xD800) * 0x400 + (second - 0xDC00) + 0x10000)) =
      [first, second] := by
  have hvalid : ((first - 0xD800) * 0x400 + (second - 0xDC00) + 0x10000).isValidChar := by
    unfold Nat.isValidChar
    omega
  unfold unitsOf
  rw [toNat_ofNat_of_isValidChar hvalid, if_neg (by omega)]
  generalize hcode : (first - 0xD800) * 0x400 + (second - 0xDC00) + 0x10000 = code
  have hhigh : 0xD800 + (code - 0x10000) / 0x400 = first := by omega
  have hlow : 0xDC00 + (code - 0x10000) % 0x400 = second := by omega
  rw [hhigh, hlow]

section Escapes
variable {text more rest behind : List Char} {units : List ℕ} {c : Char}

/-- The second half of a pair is an escape of its own. -/
theorem readSecondHalf_of_isString {first : ℕ} (hfirst : 0xD800 ≤ first ∧ first ≤ 0xDBFF)
    (h : IsString text units)
    (hread : readSecondHalf first (text ++ '"' :: rest) = .ok (c, behind)) :
    ∃ more others, IsString more others ∧ behind = more ++ '"' :: rest ∧
      first :: units = unitsOf c ++ others := by
  cases h with
  | empty => cases hread
  | @plain d more _ _ hbackslash =>
    have hrefused : readSecondHalf first (d :: more ++ '"' :: rest) =
        JsonFailure.atNext .unfinishedSurrogate (d :: more ++ '"' :: rest) := by
      rw [List.cons_append, readSecondHalf]
      all_goals
        intros
        simp_all
    rw [hrefused] at hread
    cases hread
  | @letter letter d more _ hletter =>
    obtain ⟨-, hu, -⟩ := simpleEscape?_of_mem hletter
    have hrefused : readSecondHalf first ('\\' :: letter :: more ++ '"' :: rest) =
        JsonFailure.atNext .unfinishedSurrogate (letter :: more ++ '"' :: rest) := by
      rw [List.cons_append, List.cons_append, readSecondHalf]
      all_goals
        intros
        simp_all
    rw [hrefused] at hread
    cases hread
  | @code a b d e i j k l more others ha hb hd he hmore =>
    obtain ⟨hhex, -⟩ := readHex_of_isHexDigit ha hb hd he (more ++ '"' :: rest)
    generalize ((i * 16 + j) * 16 + k) * 16 + l = second at *
    have hstep : readSecondHalf first ('\\' :: 'u' :: a :: b :: d :: e :: more ++ '"' :: rest) =
        if 0xDC00 ≤ second ∧ second ≤ 0xDFFF then
          .ok (Char.ofNat ((first - 0xD800) * 0x400 + (second - 0xDC00) + 0x10000), more ++ '"' :: rest)
        else JsonFailure.here .loneSurrogate (more ++ '"' :: rest) := by
      simp only [List.cons_append, readSecondHalf, hhex]
      rfl
    rw [hstep] at hread
    split at hread
    next hsecond =>
      obtain ⟨rfl, rfl⟩ := Prod.mk.inj (Except.ok.inj hread)
      refine ⟨more, others, hmore, rfl, ?_⟩
      rw [unitsOf_pair hfirst hsecond]
      rfl
    next => cases hread

/-- An escape, for which one code unit stands or two, and what follows it. -/
theorem readEscape_of_isString (h : IsString ('\\' :: text) units)
    (hread : readEscape (text ++ '"' :: rest) = .ok (c, behind)) :
    ∃ more others, IsString more others ∧ behind = more ++ '"' :: rest ∧
      units = unitsOf c ++ others := by
  cases h with
  | plain _ hbackslash => exact absurd rfl hbackslash
  | @letter letter d more others hletter hmore =>
    obtain ⟨hescape, hu, hunits⟩ := simpleEscape?_of_mem hletter
    have hdone : readEscape (letter :: more ++ '"' :: rest) = .ok (d, more ++ '"' :: rest) := by
      rw [List.cons_append, readEscape, hescape]
      exact hu
    rw [hdone] at hread
    obtain ⟨rfl, rfl⟩ := Prod.mk.inj (Except.ok.inj hread)
    exact ⟨more, others, hmore, rfl, by rw [hunits]; rfl⟩
  | @code a b d e i j k l more others ha hb hd he hmore =>
    obtain ⟨hhex, hcode⟩ := readHex_of_isHexDigit ha hb hd he (more ++ '"' :: rest)
    generalize ((i * 16 + j) * 16 + k) * 16 + l = code at *
    have hstep : readEscape ('u' :: a :: b :: d :: e :: more ++ '"' :: rest) =
        if 0xDC00 ≤ code ∧ code ≤ 0xDFFF then JsonFailure.here .loneSurrogate (more ++ '"' :: rest)
        else if 0xD800 ≤ code ∧ code ≤ 0xDBFF then readSecondHalf code (more ++ '"' :: rest)
        else .ok (Char.ofNat code, more ++ '"' :: rest) := by
      simp only [List.cons_append, readEscape, hhex]
      rfl
    rw [hstep] at hread
    split at hread
    next => cases hread
    next htrail =>
      split at hread
      next hlead => exact readSecondHalf_of_isString hlead hmore hread
      next hlead =>
        obtain ⟨rfl, rfl⟩ := Prod.mk.inj (Except.ok.inj hread)
        refine ⟨more, others, hmore, rfl, ?_⟩
        rw [unitsOf_ofNat hcode (by omega)]
        rfl

/-- **A string is read up to its closing quote, with the code units that it has.** -/
theorem readCharacters_of_isString {bound : ℕ} {characters : List Char} (h : IsString text units)
    (hread : readCharacters bound (text ++ '"' :: rest) = .ok (characters, behind)) :
    behind = rest ∧ characters.flatMap unitsOf = units := by
  induction bound generalizing text units characters with
  | zero => cases hread
  | succ bound ih =>
    -- one step of the reader takes one character, or an escape
    cases text with
    | nil =>
      cases h
      obtain ⟨rfl, rfl⟩ := Prod.mk.inj (Except.ok.inj hread)
      exact ⟨rfl, rfl⟩
    | cons c text =>
      rw [List.cons_append, readCharacters] at hread
      by_cases hbackslash : c = '\\'
      · subst hbackslash
        rw [if_neg (by decide), if_pos (by decide)] at hread
        obtain ⟨⟨first, part⟩, hescape, hread⟩ := bind_eq_ok_iff.mp hread
        obtain ⟨⟨others, last⟩, hothers, hread⟩ := bind_eq_ok_iff.mp hread
        obtain ⟨rfl, rfl⟩ := Prod.mk.inj (Except.ok.inj hread)
        obtain ⟨more, moreUnits, hmore, rfl, rfl⟩ := readEscape_of_isString h hescape
        obtain ⟨rfl, rfl⟩ := ih hmore hothers
        exact ⟨rfl, List.flatMap_cons⟩
      · cases h with
        | @plain _ _ moreUnits hquote _ hcontrol hmore =>
          rw [if_neg (by simpa using hquote), if_neg (by simpa using hbackslash),
            if_neg (by omega)] at hread
          obtain ⟨⟨others, last⟩, hothers, hread⟩ := bind_eq_ok_iff.mp hread
          obtain ⟨rfl, rfl⟩ := Prod.mk.inj (Except.ok.inj hread)
          obtain ⟨rfl, rfl⟩ := ih hmore hothers
          exact ⟨rfl, List.flatMap_cons⟩
        | letter => exact absurd rfl hbackslash
        | code => exact absurd rfl hbackslash

theorem readString_of_isString {found : String} (h : IsString text units)
    (hread : readString (text ++ '"' :: rest) = .ok (found, behind)) :
    behind = rest ∧ found.toList.flatMap unitsOf = units := by
  obtain ⟨⟨characters, last⟩, hcharacters, hread⟩ := bind_eq_ok_iff.mp hread
  obtain ⟨rfl, rfl⟩ := Prod.mk.inj (Except.ok.inj hread)
  rw [String.toList_ofList]
  exact readCharacters_of_isString h hcharacters

end Escapes

/-! ## What payloads are read as -/

mutual

/-- A value that a payload is read as. -/
inductive Reads : Payload → Json → Prop
  | null : Reads .null .null
  | boolean (value : Bool) : Reads (.boolean value) (.boolean value)
  | number {numeral : Numeral} {value : JsonNumber} (h : ReadsAs numeral value) :
      Reads (.number numeral) (.number value)
  | string {units : List ℕ} {value : String} (h : value.toList.flatMap unitsOf = units) :
      Reads (.string units) (.string value)
  | array {items : List Payload} {values : List Json} (h : ReadsItems items values) :
      Reads (.array items) (.array values)
  | object {members : List (List ℕ × Payload)} {values : List (String × Json)}
      (h : ReadsMembers members values) : Reads (.object members) (.object values)

/-- Items that are read one by one. -/
inductive ReadsItems : List Payload → List Json → Prop
  | nil : ReadsItems [] []
  | cons {item : Payload} {value : Json} {items : List Payload} {values : List Json}
      (h : Reads item value) (hmore : ReadsItems items values) :
      ReadsItems (item :: items) (value :: values)

/-- Members that are read one by one. -/
inductive ReadsMembers : List (List ℕ × Payload) → List (String × Json) → Prop
  | nil : ReadsMembers [] []
  | cons {units : List ℕ} {key : String} {payload : Payload} {value : Json}
      {members : List (List ℕ × Payload)} {values : List (String × Json)}
      (hkey : key.toList.flatMap unitsOf = units) (h : Reads payload value)
      (hmore : ReadsMembers members values) :
      ReadsMembers ((units, payload) :: members) ((key, value) :: values)

end

/-! ## Beginnings and ends -/

section Beginnings
variable {text rest space : List Char} {payload : Payload}

theorem isSpace_of_isBlank (h : IsBlank space) : ∀ c ∈ space, isSpace c = true := by
  intro c hc
  have hmem := h c hc
  simp only [List.mem_cons, List.not_mem_nil, or_false] at hmem
  rcases hmem with rfl | rfl | rfl | rfl <;> rfl

theorem skipSpace_append (h : IsBlank space) (rest : List Char) :
    skipSpace (space ++ rest) = skipSpace rest :=
  List.dropWhile_append_of_pos (isSpace_of_isBlank h)

/-- White space does not go on with a number. -/
theorem endsNumber_append (h : IsBlank space) (hrest : EndsNumber rest) :
    EndsNumber (space ++ rest) := by
  cases space with
  | nil => exact hrest
  | cons c space =>
    have hmem := h c (List.mem_cons_self ..)
    rintro d hd
    obtain rfl : c = d := Option.some.inj hd
    simp only [List.mem_cons, List.not_mem_nil, or_false] at hmem
    rcases hmem with rfl | rfl | rfl | rfl <;> decide

/-- A numeral begins with its sign or with a digit. -/
theorem exists_cons_text (numeral : Numeral) :
    ∃ c more, numeral.text = c :: more ∧ isSpace c = false ∧ c ∉ ['[', ']', '\x7b'] ∧
      ∀ rest, readLeaf c (more ++ rest) = do
        let (value, rest) ← readNumber numeral.negative (numeral.unsigned ++ rest)
        return (number value, rest) := by
  cases hnegative : numeral.negative with
  | true => exact ⟨'-', numeral.unsigned, by rw [Numeral.text, hnegative, if_pos rfl], rfl, by decide,
      fun rest => readLeaf_minus _⟩
  | false =>
    obtain ⟨c, others, hcons⟩ := List.exists_cons_of_ne_nil numeral.whole_ne_nil
    have hc := numeral.isDigit_whole c (by rw [hcons]; exact List.mem_cons_self ..)
    have hunsigned :
        numeral.unsigned = c :: (others ++ (numeral.fractionText ++ numeral.exponentText)) := by
      rw [Numeral.unsigned, hcons, List.cons_append]
    refine ⟨c, _, by rw [Numeral.text, hnegative, if_neg Bool.false_ne_true, hunsigned],
      isSpace_of_isDigit hc, ?_, ?_⟩
    · intro hmem
      simp only [List.mem_cons, List.not_mem_nil, or_false] at hmem
      rcases hmem with rfl | rfl | rfl <;> cases hc
    · intro rest
      rw [readLeaf_digit hc, hunsigned, List.cons_append]

/-- A value begins with a character that is no white space and ends no list. -/
theorem startsValue_of_isValue (h : IsValue text payload) (rest : List Char) :
    StartsValue (text ++ rest) := by
  cases h with
  | number numeral =>
    obtain ⟨c, more, htext, hspace, hc, -⟩ := exists_cons_text numeral
    exact ⟨c, more ++ rest, by rw [htext]; rfl, hspace, by simp_all⟩
  | null | yes | no | string | emptyArray | array | emptyObject | object =>
    exact ⟨_, _, rfl, rfl, by decide⟩

theorem startsValue_of_isElement (h : IsElement text payload) (rest : List Char) :
    StartsValue (skipSpace (text ++ rest)) := by
  cases h with
  | @intro before inner after _ hbefore hvalue hafter =>
    have hstarts := startsValue_of_isValue hvalue (after ++ rest)
    obtain ⟨c, more, heq, hspace, hc⟩ := hstarts
    rw [List.append_assoc, List.append_assoc, skipSpace_append hbefore, heq, skipSpace_cons hspace]
    exact ⟨c, more, rfl, hspace, hc⟩

theorem startsValue_of_isItems {items : List Payload} (h : IsItems text items) (rest : List Char) :
    StartsValue (skipSpace (text ++ rest)) := by
  cases h with
  | last hitem => exact startsValue_of_isElement hitem rest
  | next hitem _ =>
    rw [List.append_assoc]
    exact startsValue_of_isElement hitem _

/-- Members begin with the quote of a key. -/
theorem exists_skipSpace_of_isMembers {members : List (List ℕ × Payload)} (h : IsMembers text members)
    (rest : List Char) : ∃ key, skipSpace (text ++ rest) = '"' :: key := by
  cases h with
  | last hbefore | next hbefore =>
    rw [List.append_assoc, skipSpace_append hbefore, List.cons_append]
    exact ⟨_, skipSpace_cons rfl _⟩

end Beginnings

/-! ## Steps between parts -/

section Steps
variable {bound : ℕ} {first : Bool} {text rest rest' entry : List Char}

theorem nextItem_first_skipSpace (h : StartsValue (skipSpace text)) :
    nextItem true text = .ok (true, skipSpace text) := by
  have hstep := nextItem_first h
  unfold nextItem at hstep ⊢
  rwa [skipSpace_skipSpace] at hstep

theorem nextItem_comma_skipSpace (hentry : skipSpace entry = ',' :: text)
    (h : StartsValue (skipSpace text)) : nextItem false entry = .ok (true, skipSpace text) := by
  have hstep := nextItem_comma h
  have hcomma : ∀ text, skipSpace (',' :: text) = ',' :: text := skipSpace_cons rfl
  unfold nextItem at hstep ⊢
  rw [hcomma] at hstep
  rw [hentry]
  simpa [skipSpace_skipSpace] using hstep

theorem nextKey_first_skipSpace {key : List Char} (h : skipSpace text = '"' :: key) :
    nextKey true text = .ok (true, key) := by
  unfold nextKey
  rw [h]
  rfl

theorem nextKey_comma_skipSpace {key : List Char} (hentry : skipSpace entry = ',' :: text)
    (h : skipSpace text = '"' :: key) : nextKey false entry = .ok (true, key) := by
  unfold nextKey
  rw [hentry]
  simp [h]

/-- At its closing bracket an array ends. -/
theorem eq_of_readItems_closing {value : JsonReader Json} {items : List Json}
    (hentry : skipSpace entry = ']' :: rest)
    (hread : readItems value bound first entry = .ok (items, rest')) : items = [] ∧ rest' = rest := by
  cases bound with
  | zero => cases hread
  | succ bound =>
    obtain ⟨rfl, hnext⟩ | ⟨part, item, behind, more, hnext, -⟩ := readItems_cases hread
    · have hspace := skipSpace_of_nextItem hnext
      rw [hentry] at hspace
      exact ⟨rfl, (List.cons.inj hspace).2.symm⟩
    · obtain ⟨-, hspace, c, more, rfl, hc⟩ | ⟨-, more, hspace, -⟩ := nextItem_cases hnext
      · rw [hentry] at hspace
        exact absurd (List.cons.inj hspace).1.symm hc
      · rw [hentry] at hspace
        cases hspace

/-- At its closing bracket an object ends. -/
theorem eq_of_readMembers_closing {value : JsonReader Json} {members : List (String × Json)}
    (hentry : skipSpace entry = '\x7d' :: rest)
    (hread : readMembers value bound first entry = .ok (members, rest')) :
    members = [] ∧ rest' = rest := by
  cases bound with
  | zero => cases hread
  | succ bound =>
    obtain ⟨rfl, hnext⟩ | ⟨keyText, key, colon, part, found, behind, more, hnext, -⟩ :=
      readMembers_cases hread
    · have hspace := skipSpace_of_nextKey hnext
      rw [hentry] at hspace
      exact ⟨rfl, (List.cons.inj hspace).2.symm⟩
    · obtain ⟨-, hspace⟩ | ⟨-, more, hspace, -⟩ := nextKey_cases hnext
      · rw [hentry] at hspace
        cases hspace
      · rw [hentry] at hspace
        cases hspace

/-- The item that comes next is read, and then the others. -/
theorem exists_of_readItems_next {value : JsonReader Json} {items : List Json}
    (hspace : ∀ text, value (skipSpace text) = value text)
    (hnext : nextItem first entry = .ok (true, skipSpace text))
    (hread : readItems value bound first entry = .ok (items, rest')) :
    ∃ bound' item behind more, value text = .ok (item, behind) ∧
      readItems value bound' false behind = .ok (more, rest') ∧ items = item :: more := by
  cases bound with
  | zero => cases hread
  | succ bound =>
    obtain ⟨-, hend⟩ | ⟨part, item, behind, more, hpart, hitem, hmore, rfl⟩ := readItems_cases hread
    · rw [hnext] at hend
      cases hend
    · rw [hnext] at hpart
      obtain ⟨-, rfl⟩ := Prod.mk.inj (Except.ok.inj hpart)
      rw [hspace] at hitem
      exact ⟨bound, item, behind, more, hitem, hmore, rfl⟩

/-- The member whose key comes next is read, and then the others. -/
theorem exists_of_readMembers_next {value : JsonReader Json} {members : List (String × Json)}
    {keyText : List Char} (hnext : nextKey first entry = .ok (true, keyText))
    (hread : readMembers value bound first entry = .ok (members, rest')) :
    ∃ bound' key colon part found behind more, readString keyText = .ok (key, colon) ∧
      readColon colon = .ok ((), part) ∧ value part = .ok (found, behind) ∧
      readMembers value bound' false behind = .ok (more, rest') ∧ members = (key, found) :: more := by
  cases bound with
  | zero => cases hread
  | succ bound =>
    obtain ⟨-, hend⟩ | ⟨text, key, colon, part, found, behind, more, htext, hkey, hcolon, hfound, hmore,
      rfl⟩ := readMembers_cases hread
    · rw [hnext] at hend
      cases hend
    · rw [hnext] at htext
      obtain ⟨-, rfl⟩ := Prod.mk.inj (Except.ok.inj htext)
      exact ⟨bound, key, colon, part, found, behind, more, hkey, hcolon, hfound, hmore, rfl⟩

theorem readColon_of_isBlank {space : List Char} (h : IsBlank space) (text : List Char) :
    readColon (space ++ ':' :: text) = .ok ((), text) := by
  have hcolon : skipSpace (':' :: text) = ':' :: text := skipSpace_cons rfl text
  unfold readColon
  rw [skipSpace_append h, hcolon]
  rfl

/-- The key of a member, and the colon behind it. -/
theorem key_of_isString {before inner after tail keyText colon part : List Char} {units : List ℕ}
    {key : String} (hbefore : IsBlank before) (hinner : IsString inner units) (hafter : IsBlank after)
    (hkey : skipSpace (before ++ '"' :: (inner ++ '"' :: (after ++ ':' :: tail))) = '"' :: keyText)
    (hstring : readString keyText = .ok (key, colon)) (hcolon : readColon colon = .ok ((), part)) :
    part = tail ∧ key.toList.flatMap unitsOf = units := by
  rw [skipSpace_append hbefore, skipSpace_cons rfl] at hkey
  obtain ⟨-, rfl⟩ := List.cons.inj hkey
  obtain ⟨rfl, hunits⟩ := readString_of_isString hinner hstring
  rw [readColon_of_isBlank hafter] at hcolon
  obtain ⟨-, rfl⟩ := Prod.mk.inj (Except.ok.inj hcolon)
  exact ⟨rfl, hunits⟩

end Steps

/-! ## Values -/

-- The induction is on how the text is formed.  What is read leaves the text behind it, up to the white
-- space in front of that.
mutual

/-- **A text of the grammar that is read is read as what it stands for.** -/
theorem reads_of_isValue {text rest rest' : List Char} {payload : Payload} {depth : ℕ} {json : Json}
    (h : IsValue text payload) (hrest : EndsNumber rest)
    (hread : readValue depth (text ++ rest) = .ok (json, rest')) :
    rest' = rest ∧ Reads payload json := by
  match h with
  | .null =>
    have hleaf : readValue depth (['n', 'u', 'l', 'l'] ++ rest) = .ok (.null, rest) :=
      readValue_leaf rfl (by decide) (by decide) depth _
    rw [hleaf] at hread
    obtain ⟨rfl, rfl⟩ := Prod.mk.inj (Except.ok.inj hread)
    exact ⟨rfl, .null⟩
  | .yes =>
    have hleaf : readValue depth (['t', 'r', 'u', 'e'] ++ rest) = .ok (.boolean true, rest) :=
      readValue_leaf rfl (by decide) (by decide) depth _
    rw [hleaf] at hread
    obtain ⟨rfl, rfl⟩ := Prod.mk.inj (Except.ok.inj hread)
    exact ⟨rfl, .boolean true⟩
  | .no =>
    have hleaf : readValue depth (['f', 'a', 'l', 's', 'e'] ++ rest) = .ok (.boolean false, rest) :=
      readValue_leaf rfl (by decide) (by decide) depth _
    rw [hleaf] at hread
    obtain ⟨rfl, rfl⟩ := Prod.mk.inj (Except.ok.inj hread)
    exact ⟨rfl, .boolean false⟩
  | .number numeral =>
    obtain ⟨c, more, htext, hspace, hc, hleaf⟩ := exists_cons_text numeral
    simp only [List.mem_cons, List.not_mem_nil, or_false, not_or] at hc
    rw [htext, List.cons_append, readValue_leaf hspace hc.1 hc.2.2, hleaf] at hread
    obtain ⟨⟨value, last⟩, hnumber, hread⟩ := bind_eq_ok_iff.mp hread
    obtain ⟨rfl, rfl⟩ := Prod.mk.inj (Except.ok.inj hread)
    obtain ⟨rfl, hreads⟩ := readsAs_of_readNumber hrest hnumber
    exact ⟨rfl, .number hreads⟩
  | @IsValue.string inner _ hstring =>
    rw [List.cons_append, List.append_assoc, List.singleton_append,
      readValue_leaf rfl (by decide) (by decide), readLeaf_quote] at hread
    obtain ⟨⟨value, last⟩, hvalue, hread⟩ := bind_eq_ok_iff.mp hread
    obtain ⟨rfl, rfl⟩ := Prod.mk.inj (Except.ok.inj hread)
    obtain ⟨rfl, hunits⟩ := readString_of_isString hstring hvalue
    exact ⟨rfl, .string hunits⟩
  | @IsValue.emptyArray space hspace =>
    cases depth with
    | zero => cases hread
    | succ depth =>
      rw [List.cons_append, List.append_assoc, List.singleton_append, readValue_openArray] at hread
      obtain ⟨⟨items, last⟩, hitems, hread⟩ := bind_eq_ok_iff.mp hread
      obtain ⟨rfl, rfl⟩ := Prod.mk.inj (Except.ok.inj hread)
      have hclosing : skipSpace (space ++ ']' :: rest) = ']' :: rest := by
        rw [skipSpace_append hspace, skipSpace_cons rfl]
      obtain ⟨rfl, rfl⟩ := eq_of_readItems_closing hclosing hitems
      exact ⟨rfl, .array .nil⟩
  | @IsValue.array inner items hitems =>
    cases depth with
    | zero => cases hread
    | succ depth =>
      rw [List.cons_append, List.append_assoc, List.singleton_append, readValue_openArray] at hread
      obtain ⟨⟨values, last⟩, hvalues, hread⟩ := bind_eq_ok_iff.mp hread
      obtain ⟨rfl, rfl⟩ := Prod.mk.inj (Except.ok.inj hread)
      obtain ⟨rfl, hreads⟩ := reads_of_isItems hitems
        (nextItem_first_skipSpace (startsValue_of_isItems hitems _)) hvalues
      exact ⟨rfl, .array hreads⟩
  | @IsValue.emptyObject space hspace =>
    cases depth with
    | zero => cases hread
    | succ depth =>
      rw [List.cons_append, List.append_assoc, List.singleton_append, readValue_openObject] at hread
      obtain ⟨⟨members, last⟩, hmembers, hread⟩ := bind_eq_ok_iff.mp hread
      obtain ⟨rfl, rfl⟩ := Prod.mk.inj (Except.ok.inj hread)
      have hclosing : skipSpace (space ++ '\x7d' :: rest) = '\x7d' :: rest := by
        rw [skipSpace_append hspace, skipSpace_cons rfl]
      obtain ⟨rfl, rfl⟩ := eq_of_readMembers_closing hclosing hmembers
      exact ⟨rfl, .object .nil⟩
  | @IsValue.object inner members hmembers =>
    cases depth with
    | zero => cases hread
    | succ depth =>
      rw [List.cons_append, List.append_assoc, List.singleton_append, readValue_openObject] at hread
      obtain ⟨⟨values, last⟩, hvalues, hread⟩ := bind_eq_ok_iff.mp hread
      obtain ⟨rfl, rfl⟩ := Prod.mk.inj (Except.ok.inj hread)
      obtain ⟨key, hkey⟩ := exists_skipSpace_of_isMembers hmembers ('\x7d' :: rest)
      obtain ⟨rfl, hreads⟩ := reads_of_isMembers hmembers hkey (nextKey_first_skipSpace hkey) hvalues
      exact ⟨rfl, .object hreads⟩
termination_by structural h

/-- A value with white space around it. -/
theorem reads_of_isElement {text rest rest' : List Char} {payload : Payload} {depth : ℕ} {json : Json}
    (h : IsElement text payload) (hrest : EndsNumber rest)
    (hread : readValue depth (text ++ rest) = .ok (json, rest')) :
    skipSpace rest' = skipSpace rest ∧ Reads payload json := by
  match h with
  | @IsElement.intro before inner after _ hbefore hvalue hafter =>
    rw [← readValue_skipSpace, List.append_assoc, List.append_assoc, skipSpace_append hbefore,
      readValue_skipSpace] at hread
    obtain ⟨rfl, hreads⟩ := reads_of_isValue hvalue (endsNumber_append hafter hrest) hread
    exact ⟨skipSpace_append hafter rest, hreads⟩
termination_by structural h

/-- The items of an array up to its end. -/
theorem reads_of_isItems {text entry rest rest' : List Char} {items : List Payload} {depth bound : ℕ}
    {first : Bool} {values : List Json} (h : IsItems text items)
    (hnext : nextItem first entry = .ok (true, skipSpace (text ++ ']' :: rest)))
    (hread : readItems (readValue depth) bound first entry = .ok (values, rest')) :
    rest' = rest ∧ ReadsItems items values := by
  obtain ⟨bound, value, behind, more, hvalue, hmore, rfl⟩ :=
    exists_of_readItems_next (readValue_skipSpace depth) hnext hread
  match h with
  | .last hitem =>
    obtain ⟨hspace, hreads⟩ := reads_of_isElement hitem (endsNumber_cons (by decide) rest) hvalue
    rw [skipSpace_cons rfl] at hspace
    obtain ⟨rfl, rfl⟩ := eq_of_readItems_closing hspace hmore
    exact ⟨rfl, .cons hreads .nil⟩
  | @IsItems.next inner others item items hitem hitems =>
    rw [List.append_assoc, List.cons_append] at hvalue
    obtain ⟨hspace, hreads⟩ := reads_of_isElement hitem (endsNumber_cons (by decide) _) hvalue
    rw [skipSpace_cons rfl] at hspace
    obtain ⟨rfl, hreadsMore⟩ := reads_of_isItems hitems
      (nextItem_comma_skipSpace hspace (startsValue_of_isItems hitems _)) hmore
    exact ⟨rfl, .cons hreads hreadsMore⟩
termination_by structural h

/-- The members of an object up to its end. -/
theorem reads_of_isMembers {text entry keyText rest rest' : List Char}
    {members : List (List ℕ × Payload)} {depth bound : ℕ} {first : Bool} {values : List (String × Json)}
    (h : IsMembers text members) (hkey : skipSpace (text ++ '\x7d' :: rest) = '"' :: keyText)
    (hnext : nextKey first entry = .ok (true, keyText))
    (hread : readMembers (readValue depth) bound first entry = .ok (values, rest')) :
    rest' = rest ∧ ReadsMembers members values := by
  obtain ⟨bound, key, colon, part, value, behind, more, hstring, hcolon, hvalue, hmore, rfl⟩ :=
    exists_of_readMembers_next hnext hread
  match h with
  | @IsMembers.last before inner after text units payload hbefore hinner hafter helement =>
    simp only [List.append_assoc, List.cons_append] at hkey
    obtain ⟨rfl, hunits⟩ := key_of_isString hbefore hinner hafter hkey hstring hcolon
    obtain ⟨hspace, hreads⟩ := reads_of_isElement helement (endsNumber_cons (by decide) rest) hvalue
    rw [skipSpace_cons rfl] at hspace
    obtain ⟨rfl, rfl⟩ := eq_of_readMembers_closing hspace hmore
    exact ⟨rfl, .cons hunits hreads .nil⟩
  | @IsMembers.next before inner after text others units payload members hbefore hinner hafter helement
      hmembers =>
    simp only [List.append_assoc, List.cons_append] at hkey
    obtain ⟨rfl, hunits⟩ := key_of_isString hbefore hinner hafter hkey hstring hcolon
    obtain ⟨hspace, hreads⟩ := reads_of_isElement helement (endsNumber_cons (by decide) _) hvalue
    rw [skipSpace_cons rfl] at hspace
    obtain ⟨keyText, hkeyText⟩ := exists_skipSpace_of_isMembers hmembers ('\x7d' :: rest)
    obtain ⟨rfl, hreadsMore⟩ :=
      reads_of_isMembers hmembers hkeyText (nextKey_comma_skipSpace hspace hkeyText) hmore
    exact ⟨rfl, .cons hunits hreads hreadsMore⟩
termination_by structural h

end

/-- **A whole text that is read is read as what it stands for.** -/
theorem reads_of_denotes {raw : String} {payload : Payload} {json : Json} (h : Denotes raw payload)
    (hparse : Json.parse raw = .ok json) : Reads payload json := by
  obtain ⟨rest, hread, -⟩ := parse_eq_ok_iff.mp hparse
  rw [← List.append_nil raw.toList] at hread
  exact (reads_of_isElement h endsNumber_nil hread).2

end QueryLocator.Json
