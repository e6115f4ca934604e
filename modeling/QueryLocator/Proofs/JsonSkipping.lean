import QueryLocator.Json.Shape
import QueryLocator.Proofs.Outcomes

/-! # Strings and numbers that are passed over

A value that is not needed is passed over without being built.  Passing over asks for less than
reading does: where a string or a number can be read it can be passed over as well, and both stop at
the same place (`skipLeaf_of_readLeaf`).
-/
namespace QueryLocator.JsonShape

open Json JsonFailure

/-! ## Strings -/

theorem length_of_readHex {text rest : List Char} {code : Nat}
    (h : readHex text = .ok (code, rest)) : rest.length + 4 = text.length := by
  unfold readHex at h
  dsimp only at h
  split at h
  · split at h
    next =>
      obtain ⟨-, rfl⟩ := Prod.mk.inj (Except.ok.inj h)
      rfl
    next => split at h <;> cases h
  · split at h <;> cases h

/-- A second half is written like an escape of its own. -/
theorem exists_of_readSecondHalf {first : Nat} {text rest : List Char} {c : Char}
    (h : readSecondHalf first text = .ok (c, rest)) :
    ∃ more second, text = '\\' :: 'u' :: more ∧ readHex more = .ok (second, rest) := by
  unfold readSecondHalf at h
  split at h
  next => cases h
  next => cases h
  next more =>
    obtain ⟨⟨second, behind⟩, hhex, h⟩ := bind_eq_ok_iff.mp h
    dsimp only at h
    split at h
    next =>
      obtain ⟨-, rfl⟩ := Prod.mk.inj (Except.ok.inj h)
      exact ⟨more, second, rfl, hhex⟩
    next => cases h
  next => cases h
  next => cases h

/-- What an escape is made of. -/
theorem readEscape_cases {text rest : List Char} {c : Char} (h : readEscape text = .ok (c, rest)) :
    (∃ more code behind, text = 'u' :: more ∧ readHex more = .ok (code, behind) ∧
        (rest = behind ∨ ∃ more' second, behind = '\\' :: 'u' :: more' ∧
          readHex more' = .ok (second, rest))) ∨
      ∃ letter, text = letter :: rest ∧ letter ≠ 'u' ∧ (simpleEscape? letter).isSome = true := by
  unfold readEscape at h
  split at h
  next => cases h
  next more =>
    left
    obtain ⟨⟨code, behind⟩, hhex, h⟩ := bind_eq_ok_iff.mp h
    dsimp only at h
    refine ⟨more, code, behind, rfl, hhex, ?_⟩
    split at h
    next => cases h
    next =>
      split at h
      next =>
        obtain ⟨more', second, hbehind, hsecond⟩ := exists_of_readSecondHalf h
        exact Or.inr ⟨more', second, hbehind, hsecond⟩
      next =>
        obtain ⟨-, rfl⟩ := Prod.mk.inj (Except.ok.inj h)
        exact Or.inl rfl
  next letter more hletter =>
    right
    split at h
    next hsimple =>
      obtain ⟨-, rfl⟩ := Prod.mk.inj (Except.ok.inj h)
      exact ⟨letter, rfl, hletter, by rw [hsimple]; rfl⟩
    next => cases h

theorem skipString_quote (bound : Nat) (text : List Char) :
    skipString (bound + 1) ('"' :: text) = .ok text := rfl

theorem skipString_letter {letter : Char} (hletter : letter ≠ 'u')
    (hsimple : (simpleEscape? letter).isSome = true) (bound : Nat) (text : List Char) :
    skipString (bound + 1) ('\\' :: letter :: text) = skipString bound text := by
  rw [skipString.eq_def]
  simp [hsimple]

theorem skipString_plain {c : Char} (hquote : ¬(c == '"') = true) (hbackslash : ¬(c == '\\') = true)
    (hcontrol : ¬c.toNat < 0x20) (bound : Nat) (text : List Char) :
    skipString (bound + 1) (c :: text) = skipString bound text := by
  rw [skipString.eq_def]
  simp only [if_neg hquote, if_neg hbackslash, if_neg hcontrol]

theorem skipString_code {bound code : Nat} {text behind : List Char}
    (h : readHex text = .ok (code, behind)) :
    skipString (bound + 1) ('\\' :: 'u' :: text) = skipString bound behind := by
  rw [skipString.eq_def]
  simp [h, bind, Except.bind]

/-- An escape that can be read is passed over, and the bound stays large enough for what follows.  The
second half of a pair takes a step of its own. -/
theorem exists_skipString_escape {enough : Nat} {text rest : List Char} {c : Char}
    (h : readEscape text = .ok (c, rest)) (henough : text.length < enough) :
    ∃ enough', rest.length < enough' ∧
      skipString (enough + 1) ('\\' :: text) = skipString enough' rest := by
  rcases readEscape_cases h with
    ⟨digits, code, behind, rfl, hhex, rfl | ⟨digits', second, rfl, hsecond⟩⟩ |
    ⟨letter, rfl, hletter, hsimple⟩
  · have hlength := length_of_readHex hhex
    simp only [List.length_cons] at henough
    exact ⟨enough, by omega, skipString_code hhex⟩
  · have hlength := length_of_readHex hhex
    have hlength' := length_of_readHex hsecond
    simp only [List.length_cons] at henough hlength
    obtain ⟨enough, rfl⟩ : ∃ n, enough = n + 1 := ⟨enough - 1, by omega⟩
    exact ⟨enough, by omega, (skipString_code hhex).trans (skipString_code hsecond)⟩
  · simp only [List.length_cons] at henough
    exact ⟨enough, by omega, skipString_letter hletter hsimple ..⟩

/-- A string that can be read is passed over. -/
theorem skipString_of_readCharacters {bound enough : Nat} {text characters rest : List Char}
    (h : readCharacters bound text = .ok (characters, rest)) (henough : text.length < enough) :
    skipString enough text = .ok rest := by
  induction bound generalizing text characters enough with
  | zero => cases h
  | succ bound ih =>
    cases text with
    | nil => cases h
    | cons c text =>
      obtain ⟨enough, rfl⟩ : ∃ n, enough = n + 1 := ⟨enough - 1, by omega⟩
      simp only [List.length_cons, Nat.add_lt_add_iff_right] at henough
      rw [readCharacters] at h
      split at h
      next hquote =>
        obtain ⟨-, rfl⟩ := Prod.mk.inj (Except.ok.inj h)
        obtain rfl : c = '"' := by simpa using hquote
        exact skipString_quote ..
      next hquote =>
        split at h
        next hbackslash =>
          obtain ⟨⟨d, behind⟩, hescape, h⟩ := bind_eq_ok_iff.mp h
          obtain ⟨⟨more, last⟩, hmore, h⟩ := bind_eq_ok_iff.mp h
          obtain ⟨-, rfl⟩ := Prod.mk.inj (Except.ok.inj h)
          obtain rfl : c = '\\' := by simpa using hbackslash
          obtain ⟨enough', henough', hskip⟩ := exists_skipString_escape hescape henough
          rw [hskip]
          exact ih hmore henough'
        next hbackslash =>
          split at h
          next => cases h
          next hcontrol =>
            obtain ⟨⟨more, last⟩, hmore, h⟩ := bind_eq_ok_iff.mp h
            obtain ⟨-, rfl⟩ := Prod.mk.inj (Except.ok.inj h)
            rw [skipString_plain hquote hbackslash hcontrol]
            exact ih hmore henough

theorem skipString_of_readString {text rest : List Char} {value : String}
    (h : readString text = .ok (value, rest)) : skipString (text.length + 1) text = .ok rest := by
  obtain ⟨⟨characters, behind⟩, hread, h⟩ := bind_eq_ok_iff.mp h
  obtain ⟨-, rfl⟩ := Prod.mk.inj (Except.ok.inj h)
  exact skipString_of_readCharacters hread (Nat.lt_succ_self _)

/-! ## Numbers -/

theorem skipDigits_eq_self {text : List Char} (h : startsWithDigit text = false) :
    skipDigits text = text := by
  cases text with
  | nil => rfl
  | cons c text => exact List.dropWhile_cons_of_neg (by simpa [startsWithDigit] using h)

theorem skipDigits_cons {c : Char} (hc : c.isDigit = true) (text : List Char) :
    skipDigits (c :: text) = skipDigits text :=
  List.dropWhile_cons_of_pos hc

/-- Gathering takes digits only. -/
theorem skipDigits_gatherDigits (value count : Nat) (text : List Char) :
    skipDigits (gatherDigits value count text).2.2 = skipDigits text := by
  fun_induction gatherDigits value count text with
  | case1 value count c rest next hnext ih =>
    rw [ih, skipDigits_cons (by simp_all)]
  | case2 => rfl
  | case3 => rfl

/-- Where no digit is gathered and none is left, there was none. -/
theorem startsWithDigit_of_gatherDigits {value count : Nat} {text : List Char}
    (h : startsWithDigit text = false) : gatherDigits value count text = (value, count, text) := by
  cases text with
  | nil => rfl
  | cons c text =>
    have hc : c.isDigit = false := h
    simp [gatherDigits, hc]

theorem skipDigits_readExponentDigits (value : Nat) (text : List Char) :
    skipDigits (readExponentDigits value text).2 = skipDigits text ∧
      ((readExponentDigits value text).1.isSome = true →
        startsWithDigit (readExponentDigits value text).2 = false) := by
  fun_induction readExponentDigits value text with
  | case1 value c rest hc next hnext ih => exact ⟨ih.1.trans (skipDigits_cons hc rest).symm, ih.2⟩
  | case2 value c rest hc next hnext => exact ⟨(skipDigits_cons hc rest).symm, nofun⟩
  | case3 value c rest hc => exact ⟨rfl, fun _ => Bool.eq_false_iff.mpr hc⟩
  | case4 => exact ⟨rfl, fun _ => rfl⟩

section Numbers
variable {negative : Bool} {digits : Nat} {exponent : Int} {text rest : List Char}
  {value : JsonNumber}

theorem rest_of_floatOf (h : floatOf negative digits exponent text = .ok (value, rest)) :
    text = rest := by
  unfold floatOf at h
  split at h
  next => exact (Prod.mk.inj (Except.ok.inj h)).2
  next => cases h

theorem rest_of_signedNumber (h : signedNumber negative digits text = .ok (value, rest)) :
    text = rest := by
  unfold signedNumber at h
  split at h
  next =>
    split at h
    next => exact (Prod.mk.inj (Except.ok.inj h)).2
    next => exact rest_of_floatOf h
  next => exact (Prod.mk.inj (Except.ok.inj h)).2

/-- A sign is taken off alike with and without a look at it. -/
theorem skipExponent_eq {down : Bool} {unsigned : List Char} (h : (match text with
      | '+' :: rest => (false, rest)
      | '-' :: rest => (true, rest)
      | _ => (false, text)) = (down, unsigned)) :
    skipExponent text = if startsWithDigit unsigned then .ok (skipDigits unsigned)
      else atNext .invalidNumber unsigned := by
  split at h
  next =>
    obtain ⟨-, rfl⟩ := Prod.mk.inj h
    rfl
  next =>
    obtain ⟨-, rfl⟩ := Prod.mk.inj h
    rfl
  next hplus hminus =>
    obtain ⟨-, rfl⟩ := Prod.mk.inj h
    unfold skipExponent
    split
    next => exact (hplus _ rfl).elim
    next => exact (hminus _ rfl).elim
    next => rfl

theorem skipExponent_of_readExponent
    (h : readExponent negative digits exponent text = .ok (value, rest)) :
    skipExponent text = .ok rest := by
  unfold readExponent at h
  split at h
  next down unsigned hsign =>
  rw [skipExponent_eq hsign]
  split at h
  next => cases h
  next c more =>
    split at h
    next => cases h
    next hc =>
      rw [if_pos (show startsWithDigit (c :: more) = true from by simpa [startsWithDigit] using hc)]
      obtain ⟨hskip, hsome⟩ := skipDigits_readExponentDigits 0 (c :: more)
      split at h
      next found behind hread =>
        rw [hread] at hskip hsome
        rw [← rest_of_floatOf h, ← hskip, skipDigits_eq_self (hsome rfl)]
      next behind hread =>
        rw [hread] at hskip
        split at h
        next => cases h
        next =>
          obtain ⟨-, rfl⟩ := Prod.mk.inj (Except.ok.inj h)
          rw [← hskip]

/-- An exponent is read behind its letter, and nothing is read without one. -/
theorem readExponentPart_cases
    (h : readExponentPart negative digits exponent text = .ok (value, rest)) :
    (∃ more, (text = 'e' :: more ∨ text = 'E' :: more) ∧
        readExponent negative digits exponent more = .ok (value, rest)) ∨
      ((∀ more, text ≠ 'e' :: more) ∧ (∀ more, text ≠ 'E' :: more) ∧ text = rest) := by
  unfold readExponentPart at h
  split at h
  next => exact Or.inl ⟨_, Or.inl rfl, h⟩
  next => exact Or.inl ⟨_, Or.inr rfl, h⟩
  next hlower hupper => exact Or.inr ⟨hlower, hupper, rest_of_floatOf h⟩

theorem skipExponentPart_of_readExponentPart
    (h : readExponentPart negative digits exponent text = .ok (value, rest)) :
    (match text with
      | 'e' :: rest | 'E' :: rest => skipExponent rest
      | rest => .ok rest) = .ok rest := by
  rcases readExponentPart_cases h with ⟨more, rfl | rfl, hread⟩ | ⟨hlower, hupper, rfl⟩
  · exact skipExponent_of_readExponent hread
  · exact skipExponent_of_readExponent hread
  · split
    next => exact absurd rfl (hlower _)
    next => exact absurd rfl (hupper _)
    next => rfl

/-- A fraction that can be read begins with a digit, and its digits are passed over. -/
theorem readExponentPart_of_readFraction
    (h : readFraction negative digits exponent text = .ok (value, rest)) :
    startsWithDigit text = true ∧
      ∃ digits exponent, readExponentPart negative digits exponent (skipDigits text) =
        .ok (value, rest) := by
  unfold readFraction at h
  generalize hgather : gatherDigits digits 0 text = gathered at h
  obtain ⟨found, count, behind⟩ := gathered
  have hskip : skipDigits behind = skipDigits text := by
    rw [← skipDigits_gatherDigits digits 0 text, hgather]
  cases hstart : startsWithDigit text with
  | false =>
    rw [startsWithDigit_of_gatherDigits hstart] at hgather
    obtain ⟨rfl, rfl, rfl⟩ := hgather
    dsimp only at h
    rw [hstart] at h
    simp only [Bool.false_eq_true, if_false, if_true] at h
    split at h <;> cases h
  | true =>
    refine ⟨rfl, ?_⟩
    dsimp only at h
    split at h
    next => exact ⟨_, _, hskip ▸ h⟩
    next hbehind =>
      split at h
      next => split at h <;> cases h
      next =>
        rw [← hskip, skipDigits_eq_self (Bool.eq_false_iff.mpr hbehind)]
        exact ⟨_, _, h⟩

theorem skipNumberTail_of_readNumberTail {dropped : Nat}
    (h : readNumberTail negative digits dropped text = .ok (value, rest)) :
    skipNumberTail text = .ok rest := by
  unfold readNumberTail at h
  split at h
  next fraction =>
    obtain ⟨hstart, _, _, hpart⟩ := readExponentPart_of_readFraction h
    exact (if_pos hstart).trans (skipExponentPart_of_readExponentPart hpart)
  next => exact skipExponent_of_readExponent h
  next => exact skipExponent_of_readExponent h
  next hpoint hlower hupper =>
    have hrest : text = rest := by
      split at h
      next => exact rest_of_signedNumber h
      next => exact rest_of_floatOf h
    unfold skipNumberTail
    split
    next => exact absurd rfl (hpoint _)
    next => exact absurd rfl (hlower _)
    next => exact absurd rfl (hupper _)
    next => rw [hrest]

/-- A number that can be read is passed over. -/
theorem skipNumber_of_readNumber (h : readNumber negative text = .ok (value, rest)) :
    skipNumber text = .ok rest := by
  unfold readNumber at h
  unfold skipNumber
  split at h
  next => cases h
  next =>
    split at h
    next => cases h
    next hstart =>
      exact (if_neg hstart).trans (skipNumberTail_of_readNumberTail h)
  next c more hzero =>
    split
    next heq => exact absurd (List.cons.inj heq).1 hzero
    next =>
      split at h
      next hc =>
        rw [if_pos (show startsWithDigit (c :: more) = true from hc)]
        rw [← skipDigits_gatherDigits 0 0 (c :: more)]
        exact skipNumberTail_of_readNumberTail h
      next => cases h

end Numbers

/-! ## Values without parts -/

/-- How a value without parts is read, as its first character tells. -/
inductive LeafForm (text rest : List Char) : Char → Json → Prop where
  | null (hread : readWord ['u', 'l', 'l'] text = .ok ((), rest)) : LeafForm text rest 'n' .null
  | yes (hread : readWord ['r', 'u', 'e'] text = .ok ((), rest)) :
      LeafForm text rest 't' (.boolean true)
  | no (hread : readWord ['a', 'l', 's', 'e'] text = .ok ((), rest)) :
      LeafForm text rest 'f' (.boolean false)
  | negative {found : JsonNumber} (hread : readNumber true text = .ok (found, rest)) :
      LeafForm text rest '-' (.number found)
  | digits {c : Char} {found : JsonNumber} (hc : c.isDigit = true)
      (hread : readNumber false (c :: text) = .ok (found, rest)) : LeafForm text rest c (.number found)
  | quoted {found : String} (hread : readString text = .ok (found, rest)) :
      LeafForm text rest '"' (.string found)

theorem bind_fst_eq_ok_iff {α : Type} {read : Except JsonFailure (α × List Char)} {f : α → Json}
    {value : Json} {rest : List Char} :
    (read.bind fun found => .ok (f found.1, found.2)) = .ok (value, rest) ↔
      ∃ found, read = .ok (found, rest) ∧ value = f found := by
  constructor
  · intro h
    obtain ⟨⟨found, behind⟩, hread, hdone⟩ := bind_eq_ok_iff.mp h
    obtain ⟨rfl, rfl⟩ := Prod.mk.inj (Except.ok.inj hdone)
    exact ⟨found, hread, rfl⟩
  · rintro ⟨found, rfl, rfl⟩
    rfl

/-- The first character of a value without parts tells how it is read. -/
theorem leafForm_of_readLeaf {c : Char} {text rest : List Char} {value : Json}
    (h : readLeaf c text = .ok (value, rest)) : LeafForm text rest c value := by
  unfold readLeaf at h
  split at h
  next hc =>
    obtain ⟨_, hread, rfl⟩ := (@bind_fst_eq_ok_iff Unit _ (fun _ => null) _ _).mp h
    exact eq_of_beq hc ▸ .null hread
  next =>
    split at h
    next hc =>
      obtain ⟨_, hread, rfl⟩ := (@bind_fst_eq_ok_iff Unit _ (fun _ => boolean true) _ _).mp h
      exact eq_of_beq hc ▸ .yes hread
    next =>
      split at h
      next hc =>
        obtain ⟨_, hread, rfl⟩ := (@bind_fst_eq_ok_iff Unit _ (fun _ => boolean false) _ _).mp h
        exact eq_of_beq hc ▸ .no hread
      next =>
        split at h
        next hc =>
          obtain ⟨found, hread, rfl⟩ := bind_fst_eq_ok_iff.mp h
          exact eq_of_beq hc ▸ .negative hread
        next =>
          split at h
          next hc =>
            obtain ⟨found, hread, rfl⟩ := bind_fst_eq_ok_iff.mp h
            exact .digits hc hread
          next =>
            split at h
            next hc =>
              obtain ⟨found, hread, rfl⟩ := bind_fst_eq_ok_iff.mp h
              exact eq_of_beq hc ▸ .quoted hread
            next => cases h

theorem skipLeaf_digit {c : Char} (hc : c.isDigit = true) (text : List Char) :
    skipLeaf c text = skipNumber (c :: text) := by
  have hne (d : Char) (hd : d.isDigit = false) : ¬(c == d) = true := by
    intro heq
    rw [eq_of_beq heq, hd] at hc
    exact Bool.noConfusion hc
  simp only [skipLeaf, if_neg (hne 'n' rfl), if_neg (hne 't' rfl), if_neg (hne 'f' rfl),
    if_neg (hne '-' rfl), hc, if_true]

/-- A value without parts that can be read is passed over. -/
theorem skipLeaf_of_readLeaf {c : Char} {text rest : List Char} {value : Json}
    (h : readLeaf c text = .ok (value, rest)) : skipLeaf c text = .ok rest := by
  cases leafForm_of_readLeaf h with
  | null hread | yes hread | no hread => exact congrArg (Except.map Prod.snd) hread
  | negative hread => exact skipNumber_of_readNumber hread
  | digits hc hread =>
    rw [skipLeaf_digit hc]
    exact skipNumber_of_readNumber hread
  | quoted hread => exact skipString_of_readString hread

/-! ## Lengths

Each step takes something off the front of the text. -/

theorem length_of_readWord {word text rest : List Char} (h : readWord word text = .ok ((), rest)) :
    rest.length ≤ text.length := by
  induction word generalizing text with
  | nil =>
    obtain ⟨-, rfl⟩ := Prod.mk.inj (Except.ok.inj h)
    exact Nat.le_refl _
  | cons expected word ih =>
    cases text with
    | nil => cases h
    | cons c text =>
      rw [readWord] at h
      split at h
      next => exact Nat.le_succ_of_le (ih h)
      next => cases h

theorem length_of_skipString {bound : Nat} {text rest : List Char}
    (h : skipString bound text = .ok rest) : rest.length < text.length := by
  induction bound generalizing text with
  | zero => cases h
  | succ bound ih =>
    cases text with
    | nil => cases h
    | cons c text =>
      rw [skipString.eq_def] at h
      dsimp only at h
      split at h
      next =>
        obtain rfl := Except.ok.inj h
        exact Nat.lt_succ_self _
      next =>
        split at h
        next =>
          split at h
          next => cases h
          next text =>
            obtain ⟨⟨code, behind⟩, hhex, h⟩ := bind_eq_ok_iff.mp h
            have hlength := length_of_readHex hhex
            have hbehind := ih h
            simp only [List.length_cons] at hbehind ⊢
            omega
          next =>
            split at h
            next =>
              have := ih h
              simp only [List.length_cons]
              omega
            next => cases h
        next =>
          split at h
          next => cases h
          next => exact Nat.lt_succ_of_lt (ih h)

theorem length_skipDigits (text : List Char) : (skipDigits text).length ≤ text.length :=
  (List.dropWhile_suffix _).length_le

theorem length_of_skipExponent {text rest : List Char} (h : skipExponent text = .ok rest) :
    rest.length ≤ text.length := by
  unfold skipExponent at h
  extract_lets unsigned at h
  have hunsigned : unsigned.length ≤ text.length := by
    simp only [unsigned]
    split <;> simp
  split at h
  next =>
    obtain rfl := Except.ok.inj h
    exact Nat.le_trans (length_skipDigits _) hunsigned
  next => cases h

theorem length_of_skipNumberTail {text rest : List Char} (h : skipNumberTail text = .ok rest) :
    rest.length ≤ text.length := by
  unfold skipNumberTail at h
  split at h
  next fraction =>
    split at h
    next =>
      have hdigits := length_skipDigits fraction
      have hpart : rest.length ≤ (skipDigits fraction).length := by
        split at h
        next heq =>
          rw [heq]
          exact Nat.le_succ_of_le (length_of_skipExponent h)
        next heq =>
          rw [heq]
          exact Nat.le_succ_of_le (length_of_skipExponent h)
        next =>
          obtain rfl := Except.ok.inj h
          exact Nat.le_refl _
      exact Nat.le_succ_of_le (Nat.le_trans hpart hdigits)
    next => cases h
  next => exact Nat.le_succ_of_le (length_of_skipExponent h)
  next => exact Nat.le_succ_of_le (length_of_skipExponent h)
  next =>
    obtain rfl := Except.ok.inj h
    exact Nat.le_refl _

theorem length_of_skipNumber {text rest : List Char} (h : skipNumber text = .ok rest) :
    rest.length < text.length := by
  unfold skipNumber at h
  split at h
  next =>
    split at h
    next => cases h
    next => exact Nat.lt_succ_of_le (length_of_skipNumberTail h)
  next =>
    split at h
    next hstart =>
      cases text with
      | nil => cases hstart
      | cons c text =>
        rw [skipDigits_cons hstart] at h
        exact Nat.lt_succ_of_le (Nat.le_trans (length_of_skipNumberTail h) (length_skipDigits text))
    next => cases h

theorem length_of_readLeaf {c : Char} {text rest : List Char} {value : Json}
    (h : readLeaf c text = .ok (value, rest)) : rest.length ≤ text.length := by
  cases leafForm_of_readLeaf h with
  | null hread | yes hread | no hread => exact length_of_readWord hread
  | negative hread => exact Nat.le_of_lt (length_of_skipNumber (skipNumber_of_readNumber hread))
  | digits _ hread => exact Nat.le_of_lt_succ (length_of_skipNumber (skipNumber_of_readNumber hread))
  | quoted hread => exact Nat.le_of_lt (length_of_skipString (skipString_of_readString hread))

theorem length_of_skipSpace {c : Char} {text rest : List Char} (h : skipSpace text = c :: rest) :
    rest.length < text.length := by
  have hle : (skipSpace text).length ≤ text.length := (List.dropWhile_suffix _).length_le
  rw [h] at hle
  exact hle

end QueryLocator.JsonShape
