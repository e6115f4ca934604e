import QueryLocator.Json.Printer
import QueryLocator.Json.Reader

/-! # Strings and integers read back as they were written

What is written for a string is read as the string (`readString_escaped`), and what is written for an
integer of 64 bits, with or without a sign, is read as the integer (`readLeaf_integer`), whatever text
follows.  Behind an integer there must only be no character that goes on with the number.
-/
namespace QueryLocator.Json

open Decimal

/-! ## Strings -/

theorem hexValue?_hexDigit : ∀ n < 16, hexValue? (hexDigit n) = some n := by
  decide

/-- A control character that is written as its code. -/
theorem readEscape_code {c : Char} (h : c.toNat < 0x20) (rest : List Char) :
    readEscape ('u' :: '0' :: '0' :: hexDigit (c.toNat / 16) :: hexDigit (c.toNat % 16) :: rest) =
      .ok (c, rest) := by
  have hzero : hexValue? '0' = some 0 := rfl
  have hhigh := hexValue?_hexDigit (c.toNat / 16) (by omega)
  have hlow := hexValue?_hexDigit (c.toNat % 16) (by omega)
  have hcode : ((0 * 16 + 0) * 16 + c.toNat / 16) * 16 + c.toNat % 16 = c.toNat := by omega
  have htrail : ¬(0xDC00 ≤ c.toNat ∧ c.toNat ≤ 0xDFFF) := by omega
  have hlead : ¬(0xD800 ≤ c.toNat ∧ c.toNat ≤ 0xDBFF) := by omega
  simp only [readEscape, readHex, hzero, hhigh, hlow, hcode, bind, Except.bind, if_neg htrail,
    if_neg hlead, Char.ofNat_toNat, pure, Except.pure]

/-- A character is written as a letter that stands for it, as its code, or as itself. -/
theorem escapeChar_cases (c : Char) :
    (∃ letter, escapeChar c = ['\\', letter] ∧ letter ≠ 'u' ∧ simpleEscape? letter = some c) ∨
      (c.toNat < 0x20 ∧ escapeChar c =
        ['\\', 'u', '0', '0', hexDigit (c.toNat / 16), hexDigit (c.toNat % 16)]) ∨
      (c ≠ '"' ∧ c ≠ '\\' ∧ ¬c.toNat < 0x20 ∧ escapeChar c = [c]) := by
  by_cases hletter : c ∈ ['"', '\\', '\n', '\r', '\t', '\x08', '\x0c']
  · left
    simp only [List.mem_cons, List.not_mem_nil, or_false] at hletter
    rcases hletter with rfl | rfl | rfl | rfl | rfl | rfl | rfl <;>
      exact ⟨_, rfl, by decide, rfl⟩
  · right
    simp only [List.mem_cons, List.not_mem_nil, or_false, not_or] at hletter
    obtain ⟨hquote, hbackslash, hline, hreturn, htab, hback, hfeed⟩ := hletter
    by_cases hcontrol : c.toNat < 0x20
    · exact Or.inl ⟨hcontrol, by simp [escapeChar, *]⟩
    · exact Or.inr ⟨hquote, hbackslash, hcontrol, by simp [escapeChar, *]⟩

/-- A character is read back as it was written. -/
theorem readCharacters_escapeChar {bound : Nat} {characters rest rest' : List Char} (c : Char)
    (h : readCharacters bound rest = .ok (characters, rest')) :
    readCharacters (bound + 1) (escapeChar c ++ rest) = .ok (c :: characters, rest') := by
  rcases escapeChar_cases c with ⟨letter, hc, hu, hletter⟩ | ⟨hcontrol, hc⟩ |
    ⟨hquote, hbackslash, hcontrol, hc⟩
  · have hread : readEscape (letter :: rest) = .ok (c, rest) := by
      rw [readEscape, hletter]
      exact hu
    simp [hc, readCharacters, hread, h, bind, Except.bind, pure, Except.pure]
  · simp [hc, readCharacters, readEscape_code hcontrol, h, bind, Except.bind, pure, Except.pure]
  · simp [hc, readCharacters, hquote, hbackslash, hcontrol, h, bind, Except.bind, pure, Except.pure]

theorem readCharacters_flatMap {bound : Nat} {characters : List Char} (rest : List Char)
    (h : characters.length < bound) :
    readCharacters bound (characters.flatMap escapeChar ++ '"' :: rest) = .ok (characters, rest) := by
  induction characters generalizing bound with
  | nil =>
    obtain ⟨bound, rfl⟩ := Nat.exists_eq_add_of_lt h
    simp [readCharacters]
  | cons c characters ih =>
    obtain ⟨bound, rfl⟩ : ∃ n, bound = n + 1 := ⟨bound - 1, by simp at h; omega⟩
    rw [List.flatMap_cons, List.append_assoc]
    exact readCharacters_escapeChar c (ih (by simpa using h))

/-- Nothing is written in no characters. -/
theorem length_le_length_flatMap_escapeChar (characters : List Char) :
    characters.length ≤ (characters.flatMap escapeChar).length := by
  have hone : ∀ c, 1 ≤ (escapeChar c).length := by
    intro c
    rcases escapeChar_cases c with ⟨letter, hc, -⟩ | ⟨-, hc⟩ | ⟨-, -, -, hc⟩ <;> simp [hc]
  induction characters with
  | nil => simp
  | cons c characters ih =>
    have := hone c
    simp only [List.flatMap_cons, List.length_append, List.length_cons]
    omega

/-- **A string reads back.**  Its opening quote has been read. -/
theorem readString_escaped (s : String) (rest : List Char) :
    readString (s.toList.flatMap escapeChar ++ '"' :: rest) = .ok (s, rest) := by
  have hlength := length_le_length_flatMap_escapeChar s.toList
  rw [readString, readCharacters_flatMap rest (by rw [List.length_append]; omega)]
  simp [bind, Except.bind, pure, Except.pure]

/-! ## Integers -/

/-- A text that does not go on with a number in front of it. -/
def EndsNumber (rest : List Char) : Prop :=
  ∀ c, rest.head? = some c → c.isDigit = false ∧ c ≠ '.' ∧ c ≠ 'e' ∧ c ≠ 'E'

theorem EndsNumber.startsWithDigit {rest : List Char} (h : EndsNumber rest) :
    startsWithDigit rest = false := by
  cases rest with
  | nil => rfl
  | cons c rest => exact (h c rfl).1

/-- Further digits do not make a number smaller. -/
theorem le_ofDigitChars (digits : List Char) (value : Nat) :
    value ≤ Nat.ofDigitChars 10 digits value := by
  induction digits generalizing value with
  | nil => simp
  | cons c digits ih =>
    rw [Nat.ofDigitChars_cons]
    have := ih (10 * value + (c.toNat - '0'.toNat))
    omega

/-- One more digit, read from the left or from the right. -/
theorem mul_ten_add_digitValue (value : Nat) (c : Char) :
    value * 10 + digitValue c = 10 * value + (c.toNat - '0'.toNat) := by
  rw [Nat.mul_comm]
  rfl

/-- Of a row of digits some are gathered, in front, and the others are left. -/
theorem exists_gatherDigits {digits : List Char} (hdigits : ∀ c ∈ digits, c.isDigit = true)
    (value count : Nat) :
    ∃ front taken back, taken + back.length = count + digits.length ∧
      (∀ c ∈ back, c.isDigit = true) ∧
      (Nat.ofDigitChars 10 digits value ≤ maxUnsigned →
        front = Nat.ofDigitChars 10 digits value ∧ back = []) ∧
      ∀ rest, startsWithDigit rest = false →
        gatherDigits value count (digits ++ rest) = (front, taken, back ++ rest) := by
  induction digits generalizing value count with
  | nil =>
    refine ⟨value, count, [], rfl, by simp, fun _ => ⟨by simp, rfl⟩, ?_⟩
    intro rest hrest
    cases rest with
    | nil => rfl
    | cons c rest =>
      have hc : c.isDigit = false := hrest
      simp [gatherDigits, hc]
  | cons c digits ih =>
    have hc := hdigits c (List.mem_cons_self ..)
    by_cases hle : value * 10 + digitValue c ≤ maxUnsigned
    · obtain ⟨front, taken, back, hlength, hback, hall, hgather⟩ :=
        ih (fun d hd => hdigits d (List.mem_cons_of_mem c hd)) (value * 10 + digitValue c) (count + 1)
      refine ⟨front, taken, back, ?_, hback, ?_, ?_⟩
      · rw [List.length_cons]
        omega
      · rw [Nat.ofDigitChars_cons, ← mul_ten_add_digitValue]
        exact hall
      · intro rest hrest
        rw [List.cons_append, gatherDigits]
        simp only [hc, decide_eq_true hle, Bool.and_self, if_true]
        exact hgather rest hrest
    · refine ⟨value, count, c :: digits, rfl, hdigits, ?_, ?_⟩
      · intro hmax
        rw [Nat.ofDigitChars_cons, ← mul_ten_add_digitValue] at hmax
        have := le_ofDigitChars digits (value * 10 + digitValue c)
        omega
      · intro rest _
        rw [List.cons_append, gatherDigits]
        simp [hle]

/-- Digits whose number fits into 64 bits are all gathered. -/
theorem gatherDigits_append {digits rest : List Char} {value : Nat} (count : Nat)
    (hdigits : ∀ c ∈ digits, c.isDigit = true) (hrest : startsWithDigit rest = false)
    (hmax : Nat.ofDigitChars 10 digits value ≤ maxUnsigned) :
    gatherDigits value count (digits ++ rest) =
      (Nat.ofDigitChars 10 digits value, count + digits.length, rest) := by
  obtain ⟨front, taken, back, hlength, -, hall, hgather⟩ := exists_gatherDigits hdigits value count
  obtain ⟨rfl, rfl⟩ := hall hmax
  obtain rfl : taken = count + digits.length := hlength
  exact hgather rest hrest

theorem isDigit_of_mem_digitsOf {n : Nat} {c : Char} (h : c ∈ digitsOf n) : c.isDigit = true :=
  Nat.isDigit_of_mem_toDigits (by decide) (by decide) h

theorem exists_cons_digitsOf (n : Nat) :
    ∃ c digits, digitsOf n = c :: digits ∧ c.isDigit = true := by
  obtain ⟨c, digits, hdigits⟩ := List.exists_cons_of_ne_nil (@Nat.toDigits_ne_nil n 10)
  exact ⟨c, digits, hdigits, isDigit_of_mem_digitsOf (by rw [digitsOf, hdigits]; simp)⟩

/-- Only zero is written with a zero in front. -/
theorem head?_digitsOf_ne {n : Nat} (hn : 0 < n) : (digitsOf n).head? ≠ some '0' := by
  induction n using Nat.strongRecOn with
  | _ n ih =>
    rw [digitsOf]
    by_cases hlt : n < 10
    · rw [Nat.toDigits_of_lt_base hlt]
      simpa using Nat.ne_of_gt hn
    · have hge : 10 ≤ n := Nat.le_of_not_lt hlt
      have hfront : (digitsOf (n / 10)).head? ≠ some '0' :=
        ih (n / 10) (by omega) (Nat.div_pos hge (by decide))
      obtain ⟨c, digits, hdigits, -⟩ := exists_cons_digitsOf (n / 10)
      rw [hdigits] at hfront
      rw [Nat.toDigits_of_base_le (by decide) hge, ← digitsOf, hdigits]
      exact hfront

/-- A number ends where its digits end. -/
theorem readNumberTail_of_endsNumber (negative : Bool) (digits : Nat) {rest : List Char}
    (hrest : EndsNumber rest) :
    readNumberTail negative digits 0 rest = signedNumber negative digits rest := by
  unfold readNumberTail
  split
  next => exact absurd rfl (hrest '.' rfl).2.1
  next => exact absurd rfl (hrest 'e' rfl).2.2.1
  next => exact absurd rfl (hrest 'E' rfl).2.2.2
  next => rfl

/-- The digits of a number are read up to their end. -/
theorem readNumber_digitsOf (negative : Bool) {n : Nat} {rest : List Char} (hn : n ≤ maxUnsigned)
    (hrest : EndsNumber rest) :
    readNumber negative (digitsOf n ++ rest) = signedNumber negative n rest := by
  have hstop := hrest.startsWithDigit
  rcases Nat.eq_zero_or_pos n with rfl | hpos
  · -- a number with a zero in front has no further digits
    rw [digitsOf, Nat.toDigits_zero, List.singleton_append, readNumber, hstop]
    exact readNumberTail_of_endsNumber negative 0 hrest
  · have hvalue : Nat.ofDigitChars 10 (digitsOf n) 0 = n := Nat.ofDigitChars_ten_toDigits
    have hgather := @gatherDigits_append (digitsOf n) rest 0 0 (fun _ => isDigit_of_mem_digitsOf) hstop
      (by omega)
    have hzero := head?_digitsOf_ne hpos
    obtain ⟨c, digits, hdigits, hc⟩ := exists_cons_digitsOf n
    rw [hvalue] at hgather
    rw [hdigits] at hgather hzero ⊢
    have hskip : skipDigits rest = rest := by
      cases rest with
      | nil => rfl
      | cons d rest => exact List.dropWhile_cons_of_neg (by simpa using (hrest d rfl).1)
    rw [List.cons_append] at hgather ⊢
    rw [readNumber]
    · simp only [hc, if_true, hgather, hskip, Nat.sub_self]
      exact readNumberTail_of_endsNumber negative n hrest
    · rintro rfl
      exact hzero rfl

theorem readLeaf_minus (rest : List Char) : readLeaf '-' rest = do
    let (value, rest) ← readNumber true rest
    return (number value, rest) := rfl

theorem readLeaf_digit {c : Char} (hc : c.isDigit = true) (rest : List Char) : readLeaf c rest = do
    let (value, rest) ← readNumber false (c :: rest)
    return (number value, rest) := by
  have hne : ∀ d, d.isDigit = false → (c == d) = false := by
    rintro d hd
    rw [beq_eq_false_iff_ne]
    rintro rfl
    rw [hc] at hd
    exact Bool.noConfusion hd
  simp only [readLeaf, hne 'n' rfl, hne 't' rfl, hne 'f' rfl, hne '-' rfl, hc, if_true,
    Bool.false_eq_true, if_false]

/-- **An integer of 64 bits reads back.** -/
theorem readLeaf_integer {value : Int} {rest : List Char} (hlow : -Int.pow 2 63 ≤ value)
    (hhigh : value < Int.pow 2 64) (hrest : EndsNumber rest) :
    ∃ c text, JsonNumber.integerText value = c :: text ∧ (c = '-' ∨ c.isDigit = true) ∧
      readLeaf c (text ++ rest) = .ok (number (.integer value), rest) := by
  have hlow : -(2 ^ 63) ≤ value := hlow
  have hhigh : value < 2 ^ 64 := hhigh
  have hmax : value.natAbs ≤ maxUnsigned := by
    have : maxUnsigned = 2 ^ 64 - 1 := rfl
    omega
  rw [JsonNumber.integerText]
  by_cases hnegative : value < 0
  · -- only a negative number of at least `-2 ^ 63` stays an integer
    have hsigned : 0 < value.natAbs ∧ value.natAbs ≤ Nat.pow 2 63 := by
      have : Nat.pow 2 63 = 2 ^ 63 := rfl
      omega
    have hvalue : -(value.natAbs : Int) = value := by omega
    rw [if_pos hnegative]
    refine ⟨'-', _, rfl, Or.inl rfl, ?_⟩
    rw [readLeaf_minus, readNumber_digitsOf true hmax hrest, signedNumber, if_pos rfl, if_pos hsigned,
      hvalue]
    rfl
  · have hvalue : (value.natAbs : Int) = value := by omega
    have hread := readNumber_digitsOf false hmax hrest
    obtain ⟨c, digits, hdigits, hc⟩ := exists_cons_digitsOf value.natAbs
    rw [if_neg hnegative, hdigits]
    rw [hdigits, List.cons_append] at hread
    refine ⟨c, digits, rfl, Or.inr hc, ?_⟩
    rw [readLeaf_digit hc, hread, signedNumber, if_neg Bool.false_ne_true, hvalue]
    rfl

end QueryLocator.Json
