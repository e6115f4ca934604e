import QueryLocator.Proofs.TokenizerBounds
import QueryLocator.QueryDocument

/-! # Documents without content

What counts as white space differs with who asks: a document is blank by the Unicode property, while the
query language skips five characters only, of which the byte order mark is not even blank.  A text that
is made of white space in either sense, commas and comments has no content (`Contentless`).

Reading such a text passes all of it on the way to the first token.  A blank character that is no white
space of the query language is an error, and so is the end of the text, where a definition should begin.
So a document without content never parses, whatever position in it is asked for
(`without_content_never_parses`).
-/
namespace QueryLocator

open Text Syntax

/-! ## Texts without content -/

/-- A text without content: white space in any sense, byte order marks, commas and comments.  A comment
reaches to the end of its line, whatever stands in it. -/
inductive Contentless : List Char → Prop where
  | nil : Contentless []
  | blank {c : Char} {rest : List Char} (hc : isBlankChar c = true ∨ c = '\uFEFF' ∨ c = ',')
      (hrest : Contentless rest) : Contentless (c :: rest)
  | comment {body rest : List Char} (hbody : ∀ d ∈ body, endsLine d = false)
      (hend : ∀ d, rest.head? = some d → endsLine d = true) (hrest : Contentless rest) :
      Contentless ('#' :: (body ++ rest))

theorem contentless_of_blank {text : List Char} (h : ∀ c ∈ text, isBlankChar c = true) :
    Contentless text := by
  induction text with
  | nil => exact .nil
  | cons c rest ih =>
    rw [List.forall_mem_cons] at h
    exact .blank (Or.inl h.1) (ih h.2)

theorem Contentless.of_cons {c : Char} {rest : List Char} (h : Contentless (c :: rest))
    (hc : isSpace c = true) : Contentless rest := by
  cases h with
  | blank _ hrest => exact hrest
  | comment => exact absurd hc (by decide)

/-- White space at the front may be left away. -/
theorem Contentless.of_append {body tail : List Char} (h : Contentless (body ++ tail))
    (hbody : ∀ d ∈ body, isSpace d = true) : Contentless tail := by
  induction body with
  | nil => exact h
  | cons c body ih =>
    rw [List.forall_mem_cons] at hbody
    exact ih (h.of_cons hbody.1) hbody.2

namespace Syntax

/-! ## How they are cut -/

/-- A lexeme that no definition begins with: trivia, or a blank character that is no white space of the
query language. -/
def Lexeme.Idle (lexeme : Lexeme) : Prop :=
  (∃ kind, lexeme.kind = .ok kind ∧ kind.isTrivia = true) ∨
    ∃ c, lexeme.kind = .error (.strayCharacter c) ∧ lexeme.text = [c] ∧ isBlankChar c = true ∧
      isSpace c = false

/-- A blank character that is no white space of the query language begins no token. -/
theorem cut_of_isBlankChar {c : Char} (hblank : isBlankChar c = true) (hspace : isSpace c = false)
    (rest : List Char) : cut c rest = ⟨.error (.strayCharacter c), 0⟩ := by
  have hhidden : c.toNat < 0x21 ∨ 0x7E < c.toNat := by
    apply Classical.byContradiction
    intro hvisible
    have hnone := (of_visible (c := c) (by omega) (by omega)).2.1
    rw [hblank] at hnone
    exact Bool.noConfusion hnone
  have hne : ∀ d : Char, isBlankChar d = false → c ≠ d := by
    rintro d hd rfl
    rw [hblank] at hd
    exact Bool.noConfusion hd
  have hname : isNameStart c = false := by
    apply Bool.eq_false_iff.mpr
    intro hname
    have := toNat_of_isNameStart hname
    omega
  have hdigit : c.isDigit = false := by
    apply Bool.eq_false_iff.mpr
    intro hdigit
    have := toNat_of_isDigit hdigit
    omega
  have hmark : punctuator? c = none := by
    unfold punctuator?
    split <;> first | rfl | exact absurd hblank (by decide)
  simp [cut, hspace, hname, hdigit, hmark, hne '#' (by decide), hne '"' (by decide),
    hne '.' (by decide), hne '-' (by decide), hne '0' (by decide)]

/-- The first lexeme of a text without content is idle, and nothing behind it has content. -/
theorem firstLexeme_of_contentless {c : Char} {rest : List Char} (h : Contentless (c :: rest))
    (offset : Nat) :
    (firstLexeme offset c rest).1.Idle ∧ Contentless (firstLexeme offset c rest).2 := by
  cases h with
  | comment hbody hend hrest =>
    have hform : TokenForm .comment ('#' :: _) _ := .comment hbody hend
    simp only [firstLexeme, hform.cut_eq, List.drop_left]
    exact ⟨Or.inl ⟨.comment, rfl, rfl⟩, hrest⟩
  | blank hc hrest =>
    by_cases hspace : isSpace c = true
    · -- white space of the query language is cut off as a whole run, whatever was blank in it
      obtain ⟨body, tail, rfl, hrun, hbody, -⟩ := exists_takeWhile isSpace rest
      simp only [firstLexeme, cut, if_pos hspace, hrun, List.drop_left]
      exact ⟨Or.inl ⟨.whitespace, rfl, rfl⟩, hrest.of_append hbody⟩
    · rcases hc with hblank | rfl | rfl
      · have hspace : isSpace c = false := Bool.eq_false_iff.mpr hspace
        simp only [firstLexeme, cut_of_isBlankChar hblank hspace, List.drop_zero, List.take_zero]
        exact ⟨Or.inr ⟨c, rfl, rfl, hblank, hspace⟩, hrest⟩
      · exact absurd (show isSpace '\uFEFF' = true by decide) hspace
      · exact ⟨Or.inl ⟨.comma, rfl, rfl⟩, hrest⟩

/-- **A text without content is cut into idle lexemes.** -/
theorem idle_of_mem_lexemesFrom {bound offset : Nat} {text : List Char} (h : Contentless text)
    {lexeme : Lexeme} (hmem : lexeme ∈ lexemesFrom bound offset text) : lexeme.Idle := by
  induction bound generalizing offset text with
  | zero => simp [lexemesFrom] at hmem
  | succ bound ih =>
    cases text with
    | nil => simp [lexemesFrom] at hmem
    | cons c rest =>
      obtain ⟨hfirst, hbehind⟩ := firstLexeme_of_contentless h offset
      simp only [lexemesFrom, List.mem_cons] at hmem
      rcases hmem with rfl | hmem
      · exact hfirst
      · exact ih hbehind hmem

/-! ## How they are read -/

/-- The errors for the faulty pieces among some lexemes. -/
def faults (lexemes : List Lexeme) : List SyntaxError :=
  lexemes.filterMap fun lexeme =>
    match lexeme.kind with
    | .error fault => some ⟨fault.message, lexeme.offset⟩
    | .ok _ => none

/-- Idle lexemes are passed, and the faulty pieces among them reported. -/
theorem passing_idle {idle : List Lexeme} (h : ∀ lexeme ∈ idle, lexeme.Idle) {last : Lexeme}
    {kind : TokenKind} (hkind : last.kind = .ok kind) (hlast : kind.isTrivia = false)
    (taken : List Lexeme) (errors : List SyntaxError) (silenced : Bool) :
    Reading.passing TokenKind.isTrivia taken errors silenced (idle ++ [last]) =
      ⟨[last], idle.reverse ++ taken, (faults idle).reverse ++ errors, silenced⟩ := by
  induction idle generalizing taken errors with
  | nil => simp [Reading.passing, hkind, hlast, faults]
  | cons lexeme rest ih =>
    rw [List.forall_mem_cons] at h
    rw [List.cons_append, Reading.passing]
    rcases h.1 with ⟨found, hfound, htrivia⟩ | ⟨c, hfound, -⟩
    · simp [hfound, htrivia, ih h.2, faults]
    · simp [hfound, ih h.2, faults]

/-- **A text without content** has an error for each of its stray characters and one for its end, and it
defines nothing. -/
theorem readDocument_of_contentless {text : List Char} (h : Contentless text) :
    (readDocument text).errors = faults (lexemes text) ++ [⟨"Unexpected <EOF>.", byteSize text⟩] ∧
      (readDocument text).definitions = [] := by
  have hskip : Reading.skip ⟨markedLexemes text, [], [], false⟩ =
      ⟨[endMark text], (lexemes text).reverse, (faults (lexemes text)).reverse, false⟩ := by
    have hidle : ∀ lexeme ∈ lexemes text, lexeme.Idle := fun _ hmem => idle_of_mem_lexemesFrom h hmem
    have hmark : (endMark text).kind = .ok .endOfText := rfl
    have hpassing := passing_idle hidle hmark rfl [] [] false
    rwa [List.append_nil, List.append_nil] at hpassing
  simp only [readDocument, hskip]
  exact ⟨by simp [definitions, Reading.isAt, Reading.current?, Reading.report, Reading.reportAt,
    endMark, GrammarFault.message], rfl⟩

end Syntax

/-! ## Documents that are blank -/

/-- The error for a blank character that is no white space of the query language. -/
def IsStrayBlank (error : SyntaxError) (text : List Char) : Prop :=
  ∃ pre c suf, text = pre ++ c :: suf ∧ isBlankChar c = true ∧ isSpace c = false ∧
    error = ⟨(LexFault.strayCharacter c).message, byteSize pre⟩

theorem isStrayBlank_of_mem_faults {text : List Char} (h : Contentless text) {error : SyntaxError}
    (herror : error ∈ faults (lexemes text)) : IsStrayBlank error text := by
  obtain ⟨lexeme, hmem, hfault⟩ := List.mem_filterMap.mp herror
  rcases idle_of_mem_lexemesFrom h hmem with ⟨kind, hkind, -⟩ | ⟨c, hkind, htext, hblank, hspace⟩
  · simp [hkind] at hfault
  · rw [hkind] at hfault
    obtain rfl := Option.some.inj hfault
    obtain ⟨front, back, hsplit, hstart⟩ := exists_of_mem_lexemes hmem
    rw [htext] at hsplit
    exact ⟨front, c, back, hsplit, hblank, hspace, by rw [← hstart]; rfl⟩

/-- **A document without content never parses.**  Its errors are one for each blank character that is no
white space of the query language, and a last one where the text ends; no definition is found in it
either.  It has no operation names, and every position in it is refused with these errors, whichever
tokenizer is asked. -/
theorem QueryDocument.without_content_never_parses {document : QueryDocument}
    (h : document.isBlank = true ∨ Contentless document.text.toList) :
    ∃ strays failure, document.parse = .error failure ∧
      failure.errors = strays ++ [⟨"Unexpected <EOF>.", byteSize document.text.toList⟩] ∧
      (∀ error ∈ strays, IsStrayBlank error document.text.toList) ∧
      (readDocument document.text.toList).definitions = [] ∧ document.operationNames = [] ∧
      ∀ tokenizer scope position,
        document.resolveAt tokenizer scope position = .error (.parse failure) := by
  have hempty : Contentless document.text.toList :=
    h.elim (fun hblank => contentless_of_blank (List.all_eq_true.mp hblank)) id
  obtain ⟨herrors, hnone⟩ := readDocument_of_contentless hempty
  have hparse : document.parse = .error ⟨(readDocument document.text.toList).errors⟩ := by
    simp [QueryDocument.parse, Document.parse, herrors]
  have hnames : document.operationNames = [] := by
    delta operationNames
    rw [hparse]
  exact ⟨faults (lexemes document.text.toList), _, hparse, herrors,
    fun _ hmem => isStrayBlank_of_mem_faults hempty hmem, hnone, hnames,
    fun tokenizer scope _ => (resolve_eq_parse_failure_iff tokenizer scope).mpr hparse⟩

/-- Blanks that the query language does not know, outside a comment and inside one that ends in a
terminator of two characters, in front of a byte order mark; and a document that is blank. -/
theorem QueryDocument.without_content_never_parses_of_stray_blanks :
    (Contentless " ,\u00a0\u2028# x\u0085\r\n\uFEFF".toList ∧
      ∃ strays failure, Document.parse " ,\u00a0\u2028# x\u0085\r\n\uFEFF" = .error failure ∧
        failure.errors = strays ++ [⟨"Unexpected <EOF>.", 17⟩] ∧
        strays.map SyntaxError.offset = [2, 4] ∧
        resolve syntaxTokenizer default " ,\u00a0\u2028# x\u0085\r\n\uFEFF" ⟨9, 0⟩ =
          .error (.parse failure)) ∧
      (ofText "\u3000").isBlank = true ∧ (ofText "\u3000").operationNames = [] := by
  have hcontentless : Contentless " ,\u00a0\u2028# x\u0085\r\n\uFEFF".toList :=
    .blank (by decide) <| .blank (by decide) <| .blank (by decide) <| .blank (by decide) <|
      @Contentless.comment [' ', 'x', '\u0085'] ['\r', '\n', '\uFEFF'] (by simp [endsLine])
        (by rintro d ⟨⟩; rfl) <|
      .blank (by decide) <| .blank (by decide) <| .blank (by decide) .nil
  obtain ⟨strays, failure, hparse, herrors, -, -, -, hresolve⟩ :=
    @without_content_never_parses (ofText " ,\u00a0\u2028# x\u0085\r\n\uFEFF") (Or.inr hcontentless)
  obtain ⟨-, -, -, -, -, -, hnames, -⟩ :=
    @without_content_never_parses (ofText "\u3000") (Or.inl (by decide))
  refine ⟨⟨hcontentless, strays, failure, hparse, herrors, ?_, hresolve _ _ _⟩, by decide, hnames⟩
  have hread : Document.parse " ,\u00a0\u2028# x\u0085\r\n\uFEFF" = .error _ := rfl
  have hfailure : failure.errors.map SyntaxError.offset = [2, 4] ++ [17] := by
    rw [Except.error.inj (hparse.symm.trans hread)]
    decide
  rw [herrors, List.map_append] at hfailure
  exact List.append_cancel_right hfailure

end QueryLocator
