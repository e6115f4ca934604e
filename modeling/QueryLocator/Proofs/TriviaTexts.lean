import Mathlib.Data.List.Pairwise
import QueryLocator.Proofs.DefinitionSpans

/-! # Trivia are told by their text

The span of a definition is found from the texts of its tokens: a token is passed over when its text is
white space of any sort, a comma, or begins with a number sign.  The lexer goes by kinds instead.

The two agree on every token of every text (`text_tells_trivia`).  What is passed over is exactly what
separates tokens (`TriviaText`), since every other token begins with a visible character that is neither
a comma nor a number sign; for a string that is its quote, whatever stands behind it.  So a definition
keeps all of its tokens: each lies within the span (`significantSpan?_contains`).
-/
namespace QueryLocator

open Text Syntax

/-- Text that separates tokens: a run of white space, a comma, or a comment, which stays on its line. -/
inductive TriviaText : List Char → Prop where
  | spaces {run : List Char} (hne : run ≠ []) (hrun : ∀ c ∈ run, isSpace c = true) : TriviaText run
  | comma : TriviaText [',']
  | comment {body : List Char} (hbody : ∀ c ∈ body, endsLine c = false) : TriviaText ('#' :: body)

/-! ## Texts and kinds -/

theorem Syntax.TokenKind.isTrivia_iff {kind : TokenKind} :
    kind.isTrivia = true ↔ kind = .whitespace ∨ kind = .comma ∨ kind = .comment := by
  cases kind <;> simp [TokenKind.isTrivia]

theorem TriviaText.isIgnoredText {text : List Char} (h : TriviaText text) :
    isIgnoredText text = true := by
  cases h with
  | spaces _ hrun =>
    have hall := List.all_eq_true.mpr fun c hc => isBlankChar_of_isSpace (hrun c hc)
    simp [QueryLocator.isIgnoredText, hall]
  | comma => rfl
  | comment => rfl

/-- A token of a kind that is trivia has the text of trivia. -/
theorem Syntax.TokenForm.triviaText {kind : TokenKind} {text tail : List Char}
    (h : TokenForm kind text tail) (htrivia : kind.isTrivia = true) : TriviaText text := by
  rcases TokenKind.isTrivia_iff.mp htrivia with rfl | rfl | rfl
  · exact .spaces h.ne_nil h.whitespace_text
  · rw [h.comma_text]
    exact .comma
  · obtain ⟨body, rfl, hbody, -⟩ := h.comment_text
    exact .comment hbody

/-- **A token is passed over exactly when it is trivia**, by its kind as well as by its text. -/
theorem Syntax.TokenForm.isIgnoredText_iff {kind : TokenKind} {text tail : List Char}
    (h : TokenForm kind text tail) :
    (isIgnoredText text = true ↔ kind.isTrivia = true) ∧
      (isIgnoredText text = true ↔ TriviaText text) := by
  rw [h.isIgnoredText_eq]
  refine ⟨Iff.rfl, h.triviaText, fun htext => ?_⟩
  rw [← h.isIgnoredText_eq]
  exact htext.isIgnoredText

/-! ## Spans keep what is not passed over -/

/-- A lexeme neither begins nor ends behind another one. -/
def Syntax.Lexeme.NotBehind (a b : Lexeme) : Prop :=
  a.span.start ≤ b.span.start ∧ a.span.stop ≤ b.span.stop

instance : Std.Refl Lexeme.NotBehind :=
  ⟨fun _ => ⟨Nat.le_refl _, Nat.le_refl _⟩⟩

section Spans
variable {start : Nat} {run : List Lexeme} {lexeme : Lexeme}

theorem Placed.le_start (h : Placed start run) (hmem : lexeme ∈ run) : start ≤ lexeme.span.start := by
  induction run generalizing start with
  | nil => simp at hmem
  | cons first rest ih =>
    obtain ⟨hoffset, hrest⟩ := h
    rcases List.mem_cons.mp hmem with rfl | hmem
    · exact Nat.le_of_eq hoffset.symm
    · have := ih hrest hmem
      omega

/-- Lexemes that stand one behind the other are in the order of both of their ends. -/
theorem Placed.pairwise (h : Placed start run) : run.Pairwise Lexeme.NotBehind := by
  induction run generalizing start with
  | nil => exact .nil
  | cons first rest ih =>
    obtain ⟨hoffset, hrest⟩ := h
    refine .cons (fun other hother => ?_) (ih hrest)
    have hbehind := hrest.le_start hother
    have hfirst : first.span.start = start := hoffset
    have hstop : first.span.stop = start + byteSize first.text := by rw [← hoffset, Lexeme.span]
    have hother : other.span.start ≤ other.span.stop := Nat.le_add_right ..
    constructor <;> omega

/-- **The span of some lexemes reaches over each of them that is not passed over.** -/
theorem significantSpan?_contains (hplaced : Placed start run) (hmem : lexeme ∈ run)
    (hkept : isIgnoredText lexeme.text = false) :
    ∃ span, significantSpan? run = some span ∧ span.contains lexeme.span = true := by
  have hfilter : lexeme ∈ run.filter fun lexeme => !isIgnoredText lexeme.text :=
    List.mem_filter.mpr ⟨hmem, by rw [hkept]; rfl⟩
  have horder := hplaced.pairwise.filter fun lexeme => !isIgnoredText lexeme.text
  rw [significantSpan?]
  generalize (run.filter fun lexeme => !isIgnoredText lexeme.text) = kept at hfilter horder
  have hne : kept ≠ [] := List.ne_nil_of_mem hfilter
  have hfirst := (horder.rel_head hfilter).1
  have hlast := (horder.rel_getLast hfilter).2
  rw [List.head?_eq_some_head hne, List.getLast?_eq_some_getLast hne]
  exact ⟨_, rfl, Span.contains_iff.mpr ⟨hfirst, hlast⟩⟩

end Spans

/-- The lexemes of a definition stand one behind the other. -/
theorem Syntax.DocumentTree.Lossless.exists_placed {tree : DocumentTree} {text : List Char}
    {lead last : List Lexeme} (h : tree.Lossless text lead last) {node : DefinitionNode}
    (hnode : node ∈ tree.definitions) : ∃ start, Placed start node.lexemes := by
  have hplaced := placed_markedLexemes (lexemes_lexed h.sound)
  obtain ⟨front, back, hnodes⟩ := List.append_of_mem hnode
  rw [h.split, hnodes, List.flatMap_append, List.flatMap_cons] at hplaced
  simp only [placed_append] at hplaced
  exact ⟨_, hplaced.2.1.2.1⟩

/-- A token of a document that was read without errors is trivia or belongs to a definition. -/
theorem Syntax.DocumentTree.Lossless.exists_node {tree : DocumentTree} {text : List Char}
    {lead last : List Lexeme} (h : tree.Lossless text lead last) {lexeme : Lexeme}
    (hmem : lexeme ∈ lexemes text) {kind : TokenKind} (hkind : lexeme.kind = .ok kind)
    (htrivia : kind.isTrivia = false) : ∃ node ∈ tree.definitions, lexeme ∈ node.lexemes := by
  have hmarked : lexeme ∈ markedLexemes text := by
    rw [markedLexemes_eq]
    exact List.mem_append_left _ hmem
  rw [h.split, List.mem_append, List.mem_append] at hmarked
  rcases hmarked with hlead | hinside | hend
  · obtain ⟨other, hother, hothertrivia⟩ := h.lead lexeme hlead
    obtain rfl : kind = other := Except.ok.inj (hkind.symm.trans hother)
    rw [htrivia] at hothertrivia
    exact Bool.noConfusion hothertrivia
  · exact List.mem_flatMap.mp hinside
  · -- behind the definitions there is the mark of the end only
    rcases h.last with rfl | rfl
    · simp at hend
    · rw [List.mem_singleton] at hend
      subst hend
      exact absurd rfl (kind_ne_endOfText_of_mem hmem)

/-- **The texts of tokens tell trivia apart.**  Of every text, a token is passed over by its text
exactly when the lexer takes it for white space, a comma or a comment, and it then has the form of
one.  In a document that parses every other token belongs to a definition, and the span of that
definition reaches over it. -/
theorem text_tells_trivia (text : String) :
    (∀ lexeme ∈ lexemes text.toList, ∀ kind, lexeme.kind = .ok kind →
      lexeme.text ≠ [] ∧
      (isIgnoredText lexeme.text = true ↔ kind = .whitespace ∨ kind = .comma ∨ kind = .comment) ∧
      (isIgnoredText lexeme.text = true ↔ TriviaText lexeme.text)) ∧
    ∀ document, Document.parse text = .ok document → ∀ lexeme ∈ lexemes text.toList, ∀ kind,
      lexeme.kind = .ok kind → kind ≠ .whitespace → kind ≠ .comma → kind ≠ .comment →
      ∃ node ∈ (readDocument text.toList).definitions, lexeme ∈ node.lexemes ∧
        node.toDefinition ∈ document.definitions ∧
        ∃ span, node.toDefinition.span? = some span ∧ span.contains lexeme.span = true := by
  constructor
  · intro lexeme hmem kind hkind
    obtain ⟨tail, hform⟩ := exists_form_of_mem hmem hkind
    obtain ⟨hkinds, htexts⟩ := hform.isIgnoredText_iff
    exact ⟨hform.ne_nil, hkinds.trans TokenKind.isTrivia_iff, htexts⟩
  · intro document hparse lexeme hmem kind hkind hspace hcomma hcomment
    obtain ⟨herrors, -, rfl⟩ := Document.of_parse hparse
    obtain ⟨lead, last, hlossless⟩ := readDocument_layout herrors
    obtain ⟨tail, hform⟩ := exists_form_of_mem hmem hkind
    have htrivia : kind.isTrivia = false := by
      rw [← Bool.not_eq_true, TokenKind.isTrivia_iff]
      rintro (h | h | h)
      · exact hspace h
      · exact hcomma h
      · exact hcomment h
    obtain ⟨node, hnode, hinside⟩ := hlossless.exists_node hmem hkind htrivia
    obtain ⟨start, hplaced⟩ := hlossless.exists_placed hnode
    have hkept : isIgnoredText lexeme.text = false := hform.isIgnoredText_eq.trans htrivia
    refine ⟨node, hnode, hinside, List.mem_map_of_mem hnode, ?_⟩
    rw [node.span?_toDefinition]
    exact significantSpan?_contains hplaced hinside hkept

/-- A comment with a comma behind it, and two descriptions: a string that holds what separates tokens,
and a block string that holds a number sign. -/
theorem text_tells_trivia_of_descriptions :
    ∃ document, Document.parse "# c,\n\" , \"scalar S,\"\"\"#\"\"\"type T" = .ok document ∧
      document.definitions.map Definition.span? = [some ⟨5, 18⟩, some ⟨19, 32⟩] ∧
      (isIgnoredText ['#', ' ', 'c', ','] = true ↔ TriviaText ['#', ' ', 'c', ',']) ∧
      ∀ lexeme ∈ ([⟨.ok .string, "\" , \"".toList, 5⟩, ⟨.ok .string, "\"\"\"#\"\"\"".toList, 19⟩] :
          List Lexeme),
        (isIgnoredText lexeme.text = true ↔ TriviaText lexeme.text) ∧
        ∃ node ∈ (readDocument "# c,\n\" , \"scalar S,\"\"\"#\"\"\"type T".toList).definitions,
          lexeme ∈ node.lexemes ∧ node.toDefinition ∈ document.definitions ∧
          ∃ span, node.toDefinition.span? = some span ∧ span.contains lexeme.span = true := by
  obtain ⟨htexts, hspans⟩ := text_tells_trivia "# c,\n\" , \"scalar S,\"\"\"#\"\"\"type T"
  have hcomment := htexts ⟨.ok .comment, ['#', ' ', 'c', ','], 0⟩ (List.mem_of_getElem? (i := 0) rfl)
    .comment rfl
  have hstring := List.mem_of_getElem? (i := 2) (show
    (lexemes "# c,\n\" , \"scalar S,\"\"\"#\"\"\"type T".toList)[2]? =
      some ⟨.ok .string, "\" , \"".toList, 5⟩ from rfl)
  have hblock := List.mem_of_getElem? (i := 7) (show
    (lexemes "# c,\n\" , \"scalar S,\"\"\"#\"\"\"type T".toList)[7]? =
      some ⟨.ok .string, "\"\"\"#\"\"\"".toList, 19⟩ from rfl)
  refine ⟨_, rfl, rfl, hcomment.2.2, ?_⟩
  simp only [List.forall_mem_cons, List.not_mem_nil, false_imp_iff, implies_true, and_true]
  constructor
  · exact ⟨(htexts _ hstring .string rfl).2.2,
      hspans _ rfl _ hstring .string rfl (by decide) (by decide) (by decide)⟩
  · exact ⟨(htexts _ hblock .string rfl).2.2,
      hspans _ rfl _ hblock .string rfl (by decide) (by decide) (by decide)⟩

end QueryLocator
