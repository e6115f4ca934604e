import QueryLocator.Document
import QueryLocator.Proofs.Literals

/-! # The forms of tokens

`TokenForm kind text tail` says that `text`, followed by `tail`, is a token of a kind: what its
characters are, and how far it reaches.  It has one constructor for each branch of the lexer, and
cutting a token off the front of a text is the same as showing that it has a form
(`TokenForm.of_cut`, `TokenForm.cut_eq`).

From the forms it follows which tokens are insignificant by their text (`isIgnoredText_eq`), and that
a significant token never ends in a line terminator (`endsLine_getLast`).
-/
namespace QueryLocator.Syntax

open Text

/-- The content of a string with its closing quote, as it stands behind the opening one. -/
inductive StringForm : List Char → List Char → Prop where
  | empty {tail : List Char} (htail : tail.head? ≠ some '"') : StringForm ['"'] tail
  | block {body tail : List Char} {last : BlockState} (hbody : BlockState.plain.run body = some last)
      (hlast : last.step '"' = none) : StringForm ('"' :: '"' :: (body ++ ['"'])) tail
  | escaped {body tail : List Char} (hbody : ∀ c ∈ body, endsLine c = false)
      (hread : ∀ tail', StringState.escape.read none 1 (body ++ '"' :: tail') =
        ⟨.ok .string, body.length + 2⟩) : StringForm ('\\' :: (body ++ ['"'])) tail
  /-- The first character may be a line terminator. -/
  | plain {c : Char} {body tail : List Char} (hquote : c ≠ '"') (hslash : c ≠ '\\')
      (hbody : ∀ c ∈ body, endsLine c = false)
      (hread : ∀ tail', StringState.plain.read none 1 (body ++ '"' :: tail') =
        ⟨.ok .string, body.length + 2⟩) : StringForm (c :: (body ++ ['"'])) tail

theorem StringForm.of_literal {rest : List Char} {kind : TokenKind} {n : Nat}
    (h : stringLiteral rest = ⟨.ok kind, n⟩) :
    kind = .string ∧ ∃ body tail, rest = body ++ tail ∧ n = body.length ∧ StringForm body tail := by
  unfold stringLiteral at h
  split at h
  · simp at h
  · rename_i rest
    obtain ⟨rfl, body, last, tail, rfl, rfl, hrun, hlast⟩ := BlockState.exists_of_read h
    exact ⟨rfl, '"' :: '"' :: (body ++ ['"']), tail, by simp,
      by simp only [List.length_cons, List.length_append, List.length_nil]; omega,
      .block hrun hlast⟩
  · rename_i rest hblock
    obtain ⟨rfl, rfl⟩ : TokenKind.string = kind ∧ 1 = n := by simpa using h
    refine ⟨rfl, ['"'], rest, rfl, rfl, .empty ?_⟩
    intro hhead
    obtain ⟨r, rfl⟩ := List.head?_eq_some_iff.mp hhead
    exact hblock r rfl
  · rename_i rest
    obtain ⟨rfl, -, body, tail, rfl, rfl, hbody, hread⟩ := StringState.exists_of_read h
    rw [show 1 + body.length + 1 = body.length + 2 by omega] at hread ⊢
    exact ⟨rfl, '\\' :: (body ++ ['"']), tail, by simp, by simp, .escaped hbody hread⟩
  · rename_i c rest hblock hquote hslash
    obtain ⟨rfl, -, body, tail, rfl, rfl, hbody, hread⟩ := StringState.exists_of_read h
    rw [show 1 + body.length + 1 = body.length + 2 by omega] at hread ⊢
    refine ⟨rfl, c :: (body ++ ['"']), tail, by simp, by simp, .plain ?_ ?_ hbody hread⟩
    · rintro rfl
      exact hquote rfl
    · rintro rfl
      exact hslash rfl

theorem StringForm.literal_eq {body tail : List Char} (h : StringForm body tail) :
    stringLiteral (body ++ tail) = ⟨.ok .string, body.length⟩ := by
  cases h with
  | empty htail =>
    cases tail with
    | nil => rfl
    | cons c tail =>
      have hc : c ≠ '"' := fun hc => htail (by rw [hc]; rfl)
      rw [List.singleton_append, stringLiteral]
      · rfl
      · rintro r hr
        exact hc (List.cons.inj hr).1
  | @block body _ last hbody hlast =>
    have := BlockState.read_append hbody hlast 2 tail
    simp only [List.cons_append, List.append_assoc, List.nil_append, stringLiteral, this,
      List.length_cons, List.length_append, List.length_nil]
    congr 1
    omega
  | @escaped body _ hbody hread =>
    simp [stringLiteral, hread tail]
  | @plain c body _ hquote hslash hbody hread =>
    rw [List.cons_append, stringLiteral]
    · simp [hread tail]
    all_goals simp_all

/-- Every string ends in a quote. -/
theorem StringForm.getLast?_eq {body tail : List Char} (h : StringForm body tail) :
    body.getLast? = some '"' := by
  cases h with
  | empty => rfl
  | block => simp [List.getLast?_cons]
  | escaped => simp [List.getLast?_cons]
  | plain => simp [List.getLast?_cons]

/-- How far a number that begins with a character has been read. -/
def numberStart? (c : Char) : Option NumberState :=
  if c == '-' then some .minus
  else if c == '0' then some .zero
  else if c.isDigit then some .integer
  else none

/-- The form of a token, followed by the text behind it.  A token reaches as far as it can. -/
inductive TokenForm : TokenKind → List Char → List Char → Prop where
  | whitespace {c : Char} {body tail : List Char} (hspace : ∀ d ∈ c :: body, isSpace d = true)
      (htail : ∀ d, tail.head? = some d → isSpace d = false) :
      TokenForm .whitespace (c :: body) tail
  | comment {body tail : List Char} (hbody : ∀ d ∈ body, endsLine d = false)
      (htail : ∀ d, tail.head? = some d → endsLine d = true) : TokenForm .comment ('#' :: body) tail
  | name {c : Char} {body tail : List Char} (hstart : isNameStart c = true)
      (hbody : ∀ d ∈ body, isNameContinue d = true)
      (htail : ∀ d, tail.head? = some d → isNameContinue d = false) :
      TokenForm .name (c :: body) tail
  | string {body tail : List Char} (hbody : StringForm body tail) :
      TokenForm .string ('"' :: body) tail
  | spread {tail : List Char} : TokenForm .spread ['.', '.', '.'] tail
  | number {c : Char} {state : NumberState} {kind : TokenKind} {body tail : List Char}
      (hstart : numberStart? c = some state)
      (hread : state.read 0 (body ++ tail) = ⟨.ok kind, body.length⟩) :
      TokenForm kind (c :: body) tail
  | punctuator {c : Char} {kind : TokenKind} {tail : List Char} (hmark : punctuator? c = some kind) :
      TokenForm kind [c] tail

/-! ## Cutting and forms agree -/

/-- A run of characters of a class, followed by a character outside the class or by nothing. -/
theorem takeWhile_append_eq {p : Char → Bool} {body tail : List Char} (hbody : ∀ c ∈ body, p c = true)
    (htail : ∀ c, tail.head? = some c → p c = false) : (body ++ tail).takeWhile p = body := by
  rw [List.takeWhile_append_of_pos hbody]
  cases tail with
  | nil => simp
  | cons c tail =>
    rw [List.takeWhile_cons_of_neg (by simp [htail c rfl]), List.append_nil]

/-- The run at the front of a text is cut off where it ends. -/
theorem exists_takeWhile (p : Char → Bool) (text : List Char) :
    ∃ body tail, text = body ++ tail ∧ text.takeWhile p = body ∧ (∀ c ∈ body, p c = true) ∧
      ∀ c, tail.head? = some c → p c = false := by
  refine ⟨text.takeWhile p, text.dropWhile p, List.takeWhile_append_dropWhile.symm, rfl, ?_, ?_⟩
  · exact List.all_eq_true.mp List.all_takeWhile
  · intro c hc
    have := List.head?_dropWhile_not p text
    rwa [hc] at this

theorem TokenForm.of_cut {c : Char} {rest : List Char} {kind : TokenKind} {n : Nat}
    (h : cut c rest = ⟨.ok kind, n⟩) :
    ∃ body tail, rest = body ++ tail ∧ n = body.length ∧ TokenForm kind (c :: body) tail := by
  have number {state : NumberState} (hstart : numberStart? c = some state)
      (h : state.read 0 rest = ⟨.ok kind, n⟩) :
      ∃ body tail, rest = body ++ tail ∧ n = body.length ∧ TokenForm kind (c :: body) tail := by
    obtain ⟨body, tail, rfl, rfl, -, -⟩ := NumberState.exists_of_read h
    rw [Nat.zero_add] at h ⊢
    exact ⟨body, tail, rfl, rfl, .number hstart h⟩
  unfold cut at h
  split at h
  · rename_i hspace
    obtain ⟨rfl, rfl⟩ : TokenKind.whitespace = kind ∧ (rest.takeWhile isSpace).length = n := by
      simpa using h
    obtain ⟨body, tail, hrest, hbody, hall, htail⟩ := exists_takeWhile isSpace rest
    rw [hbody]
    exact ⟨body, tail, hrest, rfl, .whitespace (by simpa [hspace] using hall) htail⟩
  split at h
  · rename_i hhash
    obtain rfl : c = '#' := by simpa using hhash
    obtain ⟨rfl, rfl⟩ : TokenKind.comment = kind ∧
        (rest.takeWhile fun d => d != '\n' && d != '\r').length = n := by simpa using h
    obtain ⟨body, tail, hrest, hbody, hall, htail⟩ :=
      exists_takeWhile (fun d => d != '\n' && d != '\r') rest
    rw [hbody]
    refine ⟨body, tail, hrest, rfl, .comment ?_ ?_⟩
    · intro d hd
      simpa [endsLine] using hall d hd
    · intro d hd
      simpa [endsLine, Classical.or_iff_not_imp_left] using htail d hd
  split at h
  · rename_i hname
    obtain ⟨rfl, rfl⟩ : TokenKind.name = kind ∧ (rest.takeWhile isNameContinue).length = n := by
      simpa using h
    obtain ⟨body, tail, hrest, hbody, hall, htail⟩ := exists_takeWhile isNameContinue rest
    rw [hbody]
    exact ⟨body, tail, hrest, rfl, .name hname hall htail⟩
  split at h
  · rename_i hquote
    obtain rfl : c = '"' := by simpa using hquote
    obtain ⟨rfl, body, tail, rfl, rfl, hform⟩ := StringForm.of_literal h
    exact ⟨body, tail, rfl, rfl, .string hform⟩
  split at h
  · rename_i hdot
    obtain rfl : c = '.' := by simpa using hdot
    unfold dots at h
    split at h
    · rename_i tail
      obtain ⟨rfl, rfl⟩ : TokenKind.spread = kind ∧ 2 = n := by simpa using h
      exact ⟨['.', '.'], tail, rfl, rfl, .spread⟩
    · simp at h
    · simp at h
  split at h
  · rename_i hminus
    exact number (by simp [numberStart?, hminus]) h
  split at h
  · rename_i hminus hzero
    exact number (by simp [numberStart?, hminus, hzero]) h
  split at h
  · rename_i hminus hzero hdigit
    exact number (by simp [numberStart?, hminus, hzero, hdigit]) h
  split at h
  · rename_i found hmark
    obtain ⟨rfl, rfl⟩ : found = kind ∧ 0 = n := by simpa using h
    exact ⟨[], rest, rfl, rfl, .punctuator hmark⟩
  · simp at h

/-! ## Classes of characters -/

/-- No visible ASCII character is blank in any sense. -/
theorem of_visible {c : Char} (hlow : 0x21 ≤ c.toNat) (hhigh : c.toNat ≤ 0x7E) :
    isSpace c = false ∧ isBlankChar c = false ∧ c ≠ '\uFEFF' := by
  have hne : ∀ d : Char, d.toNat < 0x21 ∨ 0x7E < d.toNat → c ≠ d := by
    rintro d hd rfl
    omega
  refine ⟨?_, ?_, hne _ (by decide)⟩
  · simp [isSpace, hne _ (show '\t'.toNat < 0x21 ∨ 0x7E < '\t'.toNat by decide),
      hne _ (show ' '.toNat < 0x21 ∨ 0x7E < ' '.toNat by decide),
      hne _ (show '\n'.toNat < 0x21 ∨ 0x7E < '\n'.toNat by decide),
      hne _ (show '\r'.toNat < 0x21 ∨ 0x7E < '\r'.toNat by decide),
      hne _ (show '\uFEFF'.toNat < 0x21 ∨ 0x7E < '\uFEFF'.toNat by decide)]
  · simp only [isBlankChar, blankRanges, List.any_cons, List.any_nil, Bool.or_false]
    simp only [Bool.or_eq_false_iff, Bool.and_eq_false_iff, decide_eq_false_iff_not]
    omega

/-- The code points of the characters that begin a name. -/
theorem toNat_of_isNameStart {c : Char} (h : isNameStart c = true) :
    (0x41 ≤ c.toNat ∧ c.toNat ≤ 0x5A) ∨ (0x61 ≤ c.toNat ∧ c.toNat ≤ 0x7A) ∨ c.toNat = 0x5F := by
  rcases Bool.or_eq_true_iff.mp h with hletter | hmark
  · rcases Bool.or_eq_true_iff.mp hletter with hupper | hlower
    · obtain ⟨hlow, hhigh⟩ : 'A'.val ≤ c.val ∧ c.val ≤ 'Z'.val := of_decide_eq_true hupper
      exact Or.inl ⟨UInt32.le_iff_toNat_le.mp hlow, UInt32.le_iff_toNat_le.mp hhigh⟩
    · obtain ⟨hlow, hhigh⟩ := Bool.and_eq_true_iff.mp hlower
      exact Or.inr (Or.inl ⟨UInt32.le_iff_toNat_le.mp (of_decide_eq_true hlow),
        UInt32.le_iff_toNat_le.mp (of_decide_eq_true hhigh)⟩)
  · obtain rfl : c = '_' := by simpa using hmark
    exact Or.inr (Or.inr rfl)

/-- The code points of the digits. -/
theorem toNat_of_isDigit {c : Char} (h : c.isDigit = true) : 0x30 ≤ c.toNat ∧ c.toNat ≤ 0x39 := by
  simpa [Char.isDigit, UInt32.le_iff_toNat_le] using h

theorem toNat_of_numberStart? {c : Char} {state : NumberState} (h : numberStart? c = some state) :
    c.toNat = 0x2D ∨ (0x30 ≤ c.toNat ∧ c.toNat ≤ 0x39) := by
  unfold numberStart? at h
  split at h
  · rename_i hc
    obtain rfl : c = '-' := by simpa using hc
    exact Or.inl rfl
  split at h
  · rename_i hc
    obtain rfl : c = '0' := by simpa using hc
    exact Or.inr (by decide)
  split at h
  · rename_i hc
    exact Or.inr (toNat_of_isDigit hc)
  · simp at h

theorem TokenForm.cut_eq {kind : TokenKind} {c : Char} {body tail : List Char}
    (h : TokenForm kind (c :: body) tail) : cut c (body ++ tail) = ⟨.ok kind, body.length⟩ := by
  cases h with
  | whitespace hspace htail =>
    have hrun := takeWhile_append_eq (fun d hd => hspace d (List.mem_cons_of_mem c hd)) htail
    rw [cut, if_pos (hspace c (List.mem_cons_self ..)), hrun]
  | comment hbody htail =>
    have hrun : (body ++ tail).takeWhile (fun d => d != '\n' && d != '\r') = body := by
      apply takeWhile_append_eq
      · intro d hd
        simpa [endsLine] using hbody d hd
      · intro d hd
        simpa [endsLine, Classical.or_iff_not_imp_left] using htail d hd
    simp [cut, isSpace, hrun]
  | name hstart hbody htail =>
    have hcode := toNat_of_isNameStart hstart
    have hspace := (of_visible (c := c) (by omega) (by omega)).1
    have hhash : c ≠ '#' := by
      rintro rfl
      simp [isNameStart] at hstart
    simp [cut, hspace, hhash, hstart, takeWhile_append_eq hbody htail]
  | string hbody =>
    simp [cut, isSpace, isNameStart, hbody.literal_eq]
  | spread =>
    simp [cut, isSpace, isNameStart, dots]
  | number hstart hread =>
    have hcode := toNat_of_numberStart? hstart
    have hspace := (of_visible (c := c) (by omega) (by omega)).1
    have hname : isNameStart c = false := by
      apply Bool.eq_false_iff.mpr
      intro hname
      have := toNat_of_isNameStart hname
      omega
    have hne : ∀ d : Char,
        d.toNat ∉ [0x2D, 0x30, 0x31, 0x32, 0x33, 0x34, 0x35, 0x36, 0x37, 0x38, 0x39] → c ≠ d := by
      rintro d hd rfl
      simp only [List.mem_cons, List.not_mem_nil, or_false] at hd
      omega
    -- a number begins with none of the characters that are looked for before it
    simp only [cut, hspace, hname, beq_iff_eq, hne '#' (by decide), hne '"' (by decide),
      hne '.' (by decide), Bool.false_eq_true, if_false]
    unfold numberStart? at hstart
    grind
  | punctuator hmark =>
    unfold punctuator? at hmark
    split at hmark <;> first | (cases hmark; rfl) | simp at hmark

/-! ## Which tokens are insignificant -/

/-- A text that begins with a visible character other than a comma or a number sign is
significant. -/
theorem isIgnoredText_of_visible {c : Char} {body : List Char} (hlow : 0x21 ≤ c.toNat)
    (hhigh : c.toNat ≤ 0x7E) (hhash : c ≠ '#') (hcomma : c ≠ ',') :
    isIgnoredText (c :: body) = false := by
  obtain ⟨-, hblank, hmark⟩ := of_visible hlow hhigh
  simp [isIgnoredText, hblank, hmark, hhash, hcomma]

/-- White space of the query language is blank, or a byte order mark. -/
theorem isBlankChar_of_isSpace {c : Char} (h : isSpace c = true) :
    (isBlankChar c || c == '\uFEFF') = true := by
  simp only [isSpace, Bool.or_eq_true, beq_iff_eq] at h
  rcases h with (((rfl | rfl) | rfl) | rfl) | rfl <;> decide

/-- What the marks of a single character have in common. -/
theorem of_punctuator? {c : Char} {kind : TokenKind} (h : punctuator? c = some kind) :
    isIgnoredText [c] = kind.isTrivia ∧ endsLine c = false ∧
      kind ≠ .whitespace ∧ kind ≠ .string ∧ kind ≠ .endOfText := by
  unfold punctuator? at h
  split at h <;> first | (cases h; decide) | simp at h

/-- **The text of a token tells whether it is significant**: exactly white space, commas and comments
are not. -/
theorem TokenForm.isIgnoredText_eq {kind : TokenKind} {text tail : List Char}
    (h : TokenForm kind text tail) : isIgnoredText text = kind.isTrivia := by
  cases h with
  | whitespace hspace htail =>
    have hall := List.all_eq_true.mpr fun d hd => isBlankChar_of_isSpace (hspace d hd)
    simp [isIgnoredText, hall, TokenKind.isTrivia]
  | comment hbody htail => simp [isIgnoredText, TokenKind.isTrivia]
  | name hstart hbody htail =>
    have hcode := toNat_of_isNameStart hstart
    apply isIgnoredText_of_visible (by omega) (by omega)
    · rintro rfl
      simp [isNameStart] at hstart
    · rintro rfl
      simp [isNameStart] at hstart
  | string hbody => exact isIgnoredText_of_visible (by decide) (by decide) (by decide) (by decide)
  | spread => decide
  | number hstart hread =>
    have hcode := toNat_of_numberStart? hstart
    have hkind : kind.isTrivia = false := by
      rcases NumberState.kind_of_read hread with rfl | rfl <;> rfl
    rw [hkind]
    apply isIgnoredText_of_visible (by omega) (by omega)
    · rintro rfl
      exact absurd hcode (by decide)
    · rintro rfl
      exact absurd hcode (by decide)
  | punctuator hmark => exact (of_punctuator? hmark).1

/-- The mark of the end of the document is no token of the text. -/
theorem TokenForm.kind_ne_endOfText {kind : TokenKind} {text tail : List Char}
    (h : TokenForm kind text tail) : kind ≠ .endOfText := by
  cases h with
  | number hstart hread => rcases NumberState.kind_of_read hread with rfl | rfl <;> simp
  | punctuator hmark => exact (of_punctuator? hmark).2.2.2.2
  | _ => simp

theorem TokenForm.ne_nil {kind : TokenKind} {text tail : List Char} (h : TokenForm kind text tail) :
    text ≠ [] := by
  cases h <;> simp

/-! ## Where lines end -/

/-- A character that continues a name does not end a line. -/
theorem endsLine_of_isNameContinue {c : Char} (h : isNameContinue c = true) : endsLine c = false := by
  apply Bool.eq_false_iff.mpr
  intro hc
  rcases endsLine_iff.mp hc with rfl | rfl <;> simp [isNameContinue] at h

/-- A line ends only inside white space and strings. -/
theorem TokenForm.endsLine_of_mem {kind : TokenKind} {text tail : List Char}
    (h : TokenForm kind text tail) (hspace : kind ≠ .whitespace) (hstring : kind ≠ .string) :
    ∀ c ∈ text, endsLine c = false := by
  cases h with
  | whitespace => exact absurd rfl hspace
  | comment hbody htail => simpa [endsLine] using hbody
  | name hstart hbody htail =>
    intro d hd
    apply endsLine_of_isNameContinue
    rcases List.mem_cons.mp hd with rfl | hd
    · simp only [isNameStart, isNameContinue, Char.isAlphanum, Bool.or_eq_true] at hstart ⊢
      exact hstart.imp_left Or.inl
    · exact hbody d hd
  | string => exact absurd rfl hstring
  | spread =>
    intro d hd
    obtain rfl : d = '.' := by simpa using hd
    rfl
  | number hstart hread =>
    have hcode := toNat_of_numberStart? hstart
    obtain ⟨body', tail', hsplit, hlength, hbody, -⟩ := NumberState.exists_of_read hread
    rw [Nat.zero_add] at hlength
    obtain ⟨rfl, -⟩ := List.append_inj hsplit hlength
    intro d hd
    rcases List.mem_cons.mp hd with rfl | hd
    · apply Bool.eq_false_iff.mpr
      intro hd
      rcases endsLine_iff.mp hd with rfl | rfl <;> exact absurd hcode (by decide)
    · exact hbody d hd
  | punctuator hmark => simpa using (of_punctuator? hmark).2.1

/-- **No token but white space ends in a line terminator.** -/
theorem TokenForm.endsLine_getLast {kind : TokenKind} {text tail : List Char}
    (h : TokenForm kind text tail) (hspace : kind ≠ .whitespace) {c : Char}
    (hc : text.getLast? = some c) : endsLine c = false := by
  by_cases hstring : kind = .string
  · subst hstring
    cases h with
    | string hbody =>
      rw [List.getLast?_cons, hbody.getLast?_eq] at hc
      obtain rfl : '"' = c := by simpa using hc
      decide
    | number hstart hread => simpa using NumberState.kind_of_read hread
    | punctuator hmark => exact absurd rfl (of_punctuator? hmark).2.2.2.1
  · exact h.endsLine_of_mem hspace hstring c (List.mem_of_getLast? hc)

/-- A token does not end between the halves of a terminator: white space reaches over both. -/
theorem TokenForm.cleanCut {kind : TokenKind} {text tail : List Char} (h : TokenForm kind text tail) :
    CleanCut text tail := by
  intro hlast hhead
  by_cases hspace : kind = .whitespace
  · subst hspace
    cases h with
    | whitespace _ htail => exact absurd (htail _ hhead) (by decide)
    | number hstart hread => simpa using NumberState.kind_of_read hread
    | punctuator hmark => exact absurd rfl (of_punctuator? hmark).2.2.1
  · exact absurd (h.endsLine_getLast hspace hlast) (by decide)

/-! ## The texts of names and braces -/

/-- A name is a letter or an underscore, and then characters that continue it. -/
theorem TokenForm.name_text {text tail : List Char} (h : TokenForm .name text tail) :
    ∃ c body, text = c :: body ∧ isNameStart c = true ∧ ∀ d ∈ body, isNameContinue d = true := by
  cases h with
  | name hstart hbody _ => exact ⟨_, _, rfl, hstart, hbody⟩
  | number _ hread => simpa using NumberState.kind_of_read hread
  | punctuator hmark =>
    unfold punctuator? at hmark
    split at hmark <;> simp at hmark

theorem TokenForm.leftBrace_text {text tail : List Char} (h : TokenForm .leftBrace text tail) :
    text = ['\x7b'] := by
  cases h with
  | number _ hread => simpa using NumberState.kind_of_read hread
  | punctuator hmark =>
    unfold punctuator? at hmark
    split at hmark <;> simp_all

end QueryLocator.Syntax
