import QueryLocator.Proofs.TokenForms

/-! # A text as a run of tokens

`Lexed offset text lexemes` says that a text which begins at a byte offset is cut into the given
lexemes, each of which is a token that reaches as far as it can.  A text without faulty pieces is cut
in exactly this way (`lexemes_lexed`), and no other run has that text (`Lexed.lexemes_eq`).
-/
namespace QueryLocator.Syntax

open Text

/-- A text is a run of tokens. -/
inductive Lexed : Nat → List Char → List Lexeme → Prop where
  | nil (offset : Nat) : Lexed offset [] []
  | cons {offset : Nat} {kind : TokenKind} {token tail : List Char} {rest : List Lexeme}
      (hform : TokenForm kind token tail) (hrest : Lexed (offset + byteSize token) tail rest) :
      Lexed offset (token ++ tail) (⟨.ok kind, token, offset⟩ :: rest)

/-- The texts of some lexemes, one after the other. -/
def joinTexts (lexemes : List Lexeme) : List Char :=
  (lexemes.map Lexeme.text).flatten

@[simp] theorem joinTexts_nil : joinTexts [] = [] := rfl

@[simp] theorem joinTexts_cons (lexeme : Lexeme) (rest : List Lexeme) :
    joinTexts (lexeme :: rest) = lexeme.text ++ joinTexts rest := rfl

@[simp] theorem joinTexts_append (a b : List Lexeme) :
    joinTexts (a ++ b) = joinTexts a ++ joinTexts b := by
  simp [joinTexts]

/-! ## Cutting gives runs -/

theorem firstLexeme_ok {offset : Nat} {c : Char} {rest : List Char} {kind : TokenKind}
    (h : (firstLexeme offset c rest).1.kind = .ok kind) :
    ∃ body tail, rest = body ++ tail ∧
      firstLexeme offset c rest = (⟨.ok kind, c :: body, offset⟩, tail) ∧
      TokenForm kind (c :: body) tail := by
  have hcut : cut c rest = ⟨.ok kind, (cut c rest).further⟩ := by
    have h : (cut c rest).kind = .ok kind := h
    rw [← h]
  obtain ⟨body, tail, rfl, hlength, hform⟩ := TokenForm.of_cut hcut
  refine ⟨body, tail, rfl, ?_, hform⟩
  simp [firstLexeme, hform.cut_eq]

theorem lexemesFrom_lexed {bound offset : Nat} {text : List Char} (hbound : text.length ≤ bound)
    (h : ∀ lexeme ∈ lexemesFrom bound offset text, ∃ kind, lexeme.kind = .ok kind) :
    Lexed offset text (lexemesFrom bound offset text) := by
  induction bound generalizing offset text with
  | zero =>
    obtain rfl := List.eq_nil_of_length_eq_zero (Nat.le_zero.mp hbound)
    exact .nil offset
  | succ bound ih =>
    cases text with
    | nil => exact .nil offset
    | cons c rest =>
      simp only [lexemesFrom, List.mem_cons, forall_eq_or_imp] at h ⊢
      obtain ⟨⟨kind, hkind⟩, hrest⟩ := h
      obtain ⟨body, tail, rfl, hfirst, hform⟩ := firstLexeme_ok hkind
      rw [hfirst] at hrest ⊢
      refine .cons hform (ih ?_ hrest)
      simp only [List.length_cons, List.length_append] at hbound
      omega

/-- **A text without faulty pieces is a run of tokens.** -/
theorem lexemes_lexed {text : List Char}
    (h : ∀ lexeme ∈ lexemes text, ∃ kind, lexeme.kind = .ok kind) : Lexed 0 text (lexemes text) :=
  lexemesFrom_lexed (Nat.le_refl _) h

theorem Lexed.lexemesFrom_eq {offset : Nat} {text : List Char} {run : List Lexeme}
    (h : Lexed offset text run) {bound : Nat} (hbound : text.length ≤ bound) :
    lexemesFrom bound offset text = run := by
  induction h generalizing bound with
  | nil => cases bound <;> rfl
  | @cons offset kind token tail rest hform _ ih =>
    obtain ⟨c, body, rfl⟩ := List.exists_cons_of_ne_nil hform.ne_nil
    simp only [List.cons_append, List.length_cons, List.length_append] at hbound
    obtain ⟨bound, rfl⟩ : ∃ n, bound = n + 1 := ⟨bound - 1, by omega⟩
    have hfirst : firstLexeme offset c (body ++ tail) = (⟨.ok kind, c :: body, offset⟩, tail) := by
      simp [firstLexeme, hform.cut_eq]
    rw [List.cons_append, lexemesFrom, hfirst]
    simp only
    rw [ih (by omega)]

/-- **The run of a text is determined by it.** -/
theorem Lexed.lexemes_eq {text : List Char} {run : List Lexeme} (h : Lexed 0 text run) :
    lexemes text = run :=
  h.lexemesFrom_eq (Nat.le_refl _)

/-- Each lexeme is the first one of what is left of the text where it begins. -/
theorem exists_firstLexeme_of_mem {bound offset : Nat} {text : List Char} {lexeme : Lexeme}
    (h : lexeme ∈ lexemesFrom bound offset text) :
    ∃ start c rest, lexeme = (firstLexeme start c rest).1 := by
  induction bound generalizing offset text with
  | zero => simp [lexemesFrom] at h
  | succ bound ih =>
    cases text with
    | nil => simp [lexemesFrom] at h
    | cons c rest =>
      simp only [lexemesFrom, List.mem_cons] at h
      rcases h with rfl | h
      · exact ⟨offset, c, rest, rfl⟩
      · exact ih h

/-- A lexeme that is a token has the form of one. -/
theorem exists_form_of_mem {bound offset : Nat} {text : List Char} {lexeme : Lexeme}
    (h : lexeme ∈ lexemesFrom bound offset text) {kind : TokenKind} (hkind : lexeme.kind = .ok kind) :
    ∃ tail, TokenForm kind lexeme.text tail := by
  obtain ⟨start, c, rest, rfl⟩ := exists_firstLexeme_of_mem h
  obtain ⟨body, tail, -, hfirst, hform⟩ := firstLexeme_ok hkind
  exact ⟨tail, hfirst ▸ hform⟩

/-- A lexeme that begins with white space is nothing else. -/
theorem kind_of_head_isSpace {bound offset : Nat} {text : List Char} {lexeme : Lexeme}
    (h : lexeme ∈ lexemesFrom bound offset text) {c : Char} (hhead : lexeme.text.head? = some c)
    (hspace : isSpace c = true) : lexeme.kind = .ok .whitespace := by
  obtain ⟨start, first, rest, rfl⟩ := exists_firstLexeme_of_mem h
  obtain rfl : first = c := Option.some.inj hhead
  simp [firstLexeme, cut, hspace]

/-- The mark of the end of the document is no lexeme of a text. -/
theorem kind_ne_endOfText_of_mem {bound offset : Nat} {text : List Char} {lexeme : Lexeme}
    (h : lexeme ∈ lexemesFrom bound offset text) : lexeme.kind ≠ .ok .endOfText := by
  intro hkind
  obtain ⟨_, hform⟩ := exists_form_of_mem h hkind
  exact hform.kind_ne_endOfText rfl

/-! ## Parts of a run -/

section Runs
variable {offset : Nat} {text : List Char}

theorem Lexed.joinTexts_eq {run : List Lexeme} (h : Lexed offset text run) : joinTexts run = text := by
  induction h with
  | nil => rfl
  | cons _ _ ih => rw [joinTexts_cons, ih]

/-- A run that is cut between two of its lexemes.  The cut is clean. -/
theorem Lexed.of_append {a b : List Lexeme} (h : Lexed offset text (a ++ b)) :
    ∃ tail, text = joinTexts a ++ tail ∧ CleanCut (joinTexts a) tail ∧
      Lexed (offset + byteSize (joinTexts a)) tail b := by
  induction a generalizing offset text with
  | nil => exact ⟨text, rfl, cleanCut_nil_left text, h⟩
  | cons lexeme a ih =>
    cases h with
    | @cons _ kind token tail _ hform hrest =>
      obtain ⟨behind, rfl, hcut, hbehind⟩ := ih hrest
      refine ⟨behind, by simp, ?_, ?_⟩
      · by_cases hempty : joinTexts a = []
        · rw [hempty] at hform
          simpa [hempty] using hform.cleanCut
        · exact (cleanCut_append_iff hempty).mpr hcut
      · rw [joinTexts_cons, byteSize_append, ← Nat.add_assoc]
        exact hbehind

/-- A lexeme of a run stands where the lexemes before it end. -/
theorem Lexed.placed {a b : List Lexeme} {lexeme : Lexeme} (h : Lexed offset text (a ++ lexeme :: b)) :
    lexeme.offset = offset + byteSize (joinTexts a) ∧
      ∃ kind tail, lexeme.kind = .ok kind ∧ TokenForm kind lexeme.text tail := by
  obtain ⟨tail, -, -, htail⟩ := h.of_append
  cases htail with
  | cons hform _ => exact ⟨rfl, _, _, rfl, hform⟩

theorem Lexed.exists_of_mem {run : List Lexeme} (h : Lexed offset text run) {lexeme : Lexeme}
    (hmem : lexeme ∈ run) :
    ∃ kind tail, lexeme.kind = .ok kind ∧ TokenForm kind lexeme.text tail := by
  obtain ⟨a, b, rfl⟩ := List.append_of_mem hmem
  exact h.placed.2

end Runs

end QueryLocator.Syntax
