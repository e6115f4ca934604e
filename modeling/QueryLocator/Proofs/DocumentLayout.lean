import QueryLocator.Proofs.DocumentReading

/-! # Where the definitions of a document stand

The lexemes of a document that parses alternate between trivia and the cores of its definitions.  A
core begins and ends with a significant lexeme; it is what the span of its definition covers.  Trivia
that a definition took at its end belong to the gap behind it.

`Layout` says this with a running offset.  That the spans are in order, and that every token lies
inside a definition or beside it, are short inductions on it.
-/
namespace QueryLocator

open Text Syntax

/-! ## Lexemes and where they stand -/

/-- A lexeme that is neither white space nor a comma nor a comment. -/
def Syntax.Lexeme.Significant (lexeme : Lexeme) : Prop :=
  ∃ kind, lexeme.kind = .ok kind ∧ kind.isTrivia = false

/-- Lexemes that stand one behind the other, the first of them at an offset. -/
def Placed : Nat → List Lexeme → Prop
  | _, [] => True
  | offset, lexeme :: rest => lexeme.offset = offset ∧ Placed (offset + byteSize lexeme.text) rest

theorem placed_append {offset : Nat} {a b : List Lexeme} :
    Placed offset (a ++ b) ↔ Placed offset a ∧ Placed (offset + byteSize (joinTexts a)) b := by
  induction a generalizing offset with
  | nil => simp [Placed]
  | cons lexeme a ih => simp [Placed, ih, Nat.add_assoc, and_assoc]

theorem Syntax.Lexed.placed_run {offset : Nat} {text : List Char} {run : List Lexeme}
    (h : Lexed offset text run) : Placed offset run := by
  induction h with
  | nil => trivial
  | cons _ _ ih => exact ⟨rfl, ih⟩

theorem placed_markedLexemes {text : List Char} (h : Lexed 0 text (lexemes text)) :
    Placed 0 (markedLexemes text) := by
  rw [markedLexemes_eq, placed_append, h.joinTexts_eq]
  exact ⟨h.placed_run, by simp [Placed, endMark]⟩

theorem joinTexts_markedLexemes {text : List Char} (h : Lexed 0 text (lexemes text)) :
    joinTexts (markedLexemes text) = text := by
  rw [markedLexemes_eq, joinTexts_append, h.joinTexts_eq]
  simp [endMark]

/-- In a text without faulty pieces a lexeme is significant when its text is. -/
theorem Syntax.Lexed.significant_iff {offset : Nat} {text : List Char} {run : List Lexeme}
    (h : Lexed offset text run) {lexeme : Lexeme} (hmem : lexeme ∈ run) :
    lexeme.Significant ↔ isIgnoredText lexeme.text = false := by
  obtain ⟨kind, tail, hkind, hform⟩ := h.exists_of_mem hmem
  rw [hform.isIgnoredText_eq]
  constructor
  · rintro ⟨kind', hkind', htrivia⟩
    obtain rfl : kind = kind' := Except.ok.inj (hkind.symm.trans hkind')
    exact htrivia
  · intro htrivia
    exact ⟨kind, hkind, htrivia⟩

theorem isIgnoredText_endMark (text : List Char) : isIgnoredText (endMark text).text = true := rfl

/-- What is significant by its text is a lexeme of the text, and no mark of its end. -/
theorem mem_lexemes_of_significant {text : List Char} (h : Lexed 0 text (lexemes text))
    {lexeme : Lexeme} (hmem : lexeme ∈ markedLexemes text) (htext : isIgnoredText lexeme.text = false) :
    lexeme ∈ lexemes text ∧ lexeme.Significant := by
  rw [markedLexemes_eq, List.mem_append, List.mem_singleton] at hmem
  rcases hmem with hmem | rfl
  · exact ⟨hmem, (h.significant_iff hmem).mpr htext⟩
  · rw [isIgnoredText_endMark] at htext
    exact absurd htext (by simp)

/-- The text of a lexeme tells whether it is trivia. -/
theorem isIgnoredText_of_mem_markedLexemes {text : List Char} (h : Lexed 0 text (lexemes text))
    {lexeme : Lexeme} (hmem : lexeme ∈ markedLexemes text) {kind : TokenKind}
    (hkind : lexeme.kind = .ok kind) (hend : kind ≠ .endOfText) :
    isIgnoredText lexeme.text = kind.isTrivia := by
  rw [markedLexemes_eq, List.mem_append, List.mem_singleton] at hmem
  rcases hmem with hmem | rfl
  · obtain ⟨kind', tail, hkind', hform⟩ := h.exists_of_mem hmem
    obtain rfl : kind = kind' := Except.ok.inj (hkind.symm.trans hkind')
    exact hform.isIgnoredText_eq
  · exact absurd (Except.ok.inj hkind).symm hend

/-! ## The core of a definition -/

/-- Lexemes of which the first and the last are significant. -/
structure IsCore (core : List Lexeme) : Prop where
  first : ∃ lexeme rest, core = lexeme :: rest ∧ isIgnoredText lexeme.text = false
  last : ∃ front lexeme, core = front ++ [lexeme] ∧ isIgnoredText lexeme.text = false

/-- Lexemes that begin with a significant one are a core and trivia behind it. -/
theorem exists_core {first : Lexeme} {rest : List Lexeme} (h : isIgnoredText first.text = false) :
    ∃ core trailing, first :: rest = core ++ trailing ∧ IsCore core ∧
      ∀ lexeme ∈ trailing, isIgnoredText lexeme.text = true := by
  cases hfind : (first :: rest).reverse.find? fun lexeme => !isIgnoredText lexeme.text with
  | none => simpa [h] using List.find?_eq_none.mp hfind first (by simp)
  | some last =>
    obtain ⟨hlast, back, front, hsplit, hback⟩ := List.find?_eq_some_iff_append.mp hfind
    have hsplit : first :: rest = (front.reverse ++ [last]) ++ back.reverse := by
      rw [← List.reverse_inj, hsplit]
      simp
    refine ⟨front.reverse ++ [last], back.reverse, hsplit, ⟨?_, ?_⟩, ?_⟩
    · cases hfront : front.reverse with
      | nil =>
        rw [hfront] at hsplit
        exact ⟨first, [], by rw [(List.cons.inj hsplit).1]; rfl, h⟩
      | cons head front =>
        rw [hfront] at hsplit
        exact ⟨first, front ++ [last], by rw [(List.cons.inj hsplit).1]; rfl, h⟩
    · exact ⟨front.reverse, last, rfl, by simpa using hlast⟩
    · intro lexeme hmem
      simpa using hback lexeme (List.mem_reverse.mp hmem)

/-- The span of a core is from where its first lexeme stands to where its last one ends. -/
theorem significantSpan?_eq {start : Nat} {core trailing : List Lexeme} (hcore : IsCore core)
    (htrailing : ∀ lexeme ∈ trailing, isIgnoredText lexeme.text = true) (hplaced : Placed start core) :
    significantSpan? (core ++ trailing) = some ⟨start, start + byteSize (joinTexts core)⟩ := by
  obtain ⟨first, rest, hfirst, hfirstText⟩ := hcore.first
  obtain ⟨front, last, hlast, hlastText⟩ := hcore.last
  have hhead : ((core ++ trailing).filter fun lexeme => !isIgnoredText lexeme.text).head? =
      some first := by
    simp [hfirst, hfirstText]
  have hend : ((core ++ trailing).filter fun lexeme => !isIgnoredText lexeme.text).getLast? =
      some last := by
    have hnone : trailing.filter (fun lexeme => !isIgnoredText lexeme.text) = [] := by
      simpa using htrailing
    rw [List.filter_append, hnone, hlast]
    simp [hlastText]
  have hstart : first.offset = start := by
    rw [hfirst] at hplaced
    exact hplaced.1
  have hstop : last.offset + byteSize last.text = start + byteSize (joinTexts core) := by
    rw [hlast] at hplaced ⊢
    have hoffset := (placed_append.mp hplaced).2.1
    rw [hoffset]
    simp [Nat.add_assoc]
  simp only [significantSpan?, hhead, hend, Lexeme.span, hstart, hstop]

/-- Something stands in a core. -/
theorem IsCore.byteSize_pos {core : List Lexeme} (h : IsCore core) : 0 < byteSize (joinTexts core) := by
  obtain ⟨first, rest, rfl, hfirst⟩ := h.first
  have hne : first.text ≠ [] := by
    intro hnil
    simp [isIgnoredText, hnil] at hfirst
  have := Text.byteSize_pos hne
  simp only [joinTexts_cons, byteSize_append]
  omega

/-! ## Gaps and cores -/

/-- Lexemes from an offset on: trivia with the cores of definitions between them, and the spans of
those cores. -/
inductive Layout : Nat → List Lexeme → List Span → Prop where
  | last {start : Nat} {gap : List Lexeme}
      (hgap : ∀ lexeme ∈ gap, isIgnoredText lexeme.text = true) : Layout start gap []
  | definition {start low high : Nat} {gap core rest : List Lexeme} {spans : List Span}
      (hgap : ∀ lexeme ∈ gap, isIgnoredText lexeme.text = true) (hcore : IsCore core)
      (hlow : low = start + byteSize (joinTexts gap)) (hhigh : high = low + byteSize (joinTexts core))
      (hrest : Layout high rest spans) : Layout start (gap ++ (core ++ rest)) (⟨low, high⟩ :: spans)

/-- Nodes one behind the other, each of which begins with a significant lexeme, are laid out with
their spans. -/
theorem exists_layout {start : Nat} {gap last : List Lexeme} {nodes : List DefinitionNode}
    (hgap : ∀ lexeme ∈ gap, isIgnoredText lexeme.text = true)
    (hlast : ∀ lexeme ∈ last, isIgnoredText lexeme.text = true)
    (hnodes : ∀ node ∈ nodes, ∃ first rest, node.lexemes = first :: rest ∧
      isIgnoredText first.text = false)
    (hplaced : Placed start (gap ++ (nodes.flatMap DefinitionNode.lexemes ++ last))) :
    ∃ spans, Layout start (gap ++ (nodes.flatMap DefinitionNode.lexemes ++ last)) spans ∧
      nodes.map (fun node => significantSpan? node.lexemes) = spans.map some := by
  induction nodes generalizing start gap with
  | nil =>
    refine ⟨[], .last ?_, rfl⟩
    intro lexeme hmem
    rcases List.mem_append.mp hmem with hmem | hmem
    · exact hgap lexeme hmem
    · exact hlast lexeme (by simpa using hmem)
  | cons node nodes ih =>
    obtain ⟨first, rest, hnode, hfirst⟩ := hnodes node (List.mem_cons_self ..)
    obtain ⟨core, trailing, hsplit, hcore, htrailing⟩ := @exists_core first rest hfirst
    have hrun : gap ++ ((node :: nodes).flatMap DefinitionNode.lexemes ++ last) =
        gap ++ (core ++ (trailing ++ (nodes.flatMap DefinitionNode.lexemes ++ last))) := by
      rw [List.flatMap_cons, hnode, hsplit]
      simp only [List.append_assoc]
    rw [hrun, placed_append, placed_append] at hplaced
    obtain ⟨-, hplacedCore, hplacedRest⟩ := hplaced
    -- what the node took behind its core is the gap in front of the next one
    obtain ⟨spans, hlayout, hspans⟩ :=
      ih htrailing (fun n hn => hnodes n (List.mem_cons_of_mem node hn)) hplacedRest
    refine ⟨⟨start + byteSize (joinTexts gap),
      start + byteSize (joinTexts gap) + byteSize (joinTexts core)⟩ :: spans, ?_, ?_⟩
    · rw [hrun]
      exact .definition hgap hcore rfl rfl hlayout
    · rw [List.map_cons, List.map_cons, hspans, hnode, hsplit,
        significantSpan?_eq hcore htrailing hplacedCore]

namespace Layout
variable {start : Nat} {run : List Lexeme} {spans : List Span}

/-- No span is empty, and none reaches out of the lexemes. -/
theorem bounds (h : Layout start run spans) {span : Span} (hmem : span ∈ spans) :
    start ≤ span.start ∧ span.start < span.stop ∧ span.stop ≤ start + byteSize (joinTexts run) := by
  induction h with
  | last => simp at hmem
  | definition _ hcore hlow hhigh _ ih =>
    have := hcore.byteSize_pos
    simp only [joinTexts_append, byteSize_append]
    rcases List.mem_cons.mp hmem with rfl | hmem
    · simp only
      omega
    · have := ih hmem
      omega

/-- **The definitions are in order and do not overlap.** -/
theorem pairwise (h : Layout start run spans) : spans.Pairwise fun a b => a.stop ≤ b.start := by
  induction h with
  | last => exact .nil
  | definition _ _ _ _ hrest ih =>
    refine List.pairwise_cons.mpr ⟨?_, ih⟩
    intro span hmem
    exact (hrest.bounds hmem).1

/-- A span is where a core stands. -/
theorem core_of_mem (h : Layout start run spans) {span : Span} (hmem : span ∈ spans) :
    ∃ front core back, run = front ++ (core ++ back) ∧ IsCore core ∧
      span.start = start + byteSize (joinTexts front) ∧
      span.stop = span.start + byteSize (joinTexts core) := by
  induction h with
  | last => simp at hmem
  | @definition start low high gap core rest spans _ hcore hlow hhigh _ ih =>
    rcases List.mem_cons.mp hmem with rfl | hmem
    · exact ⟨gap, core, rest, rfl, hcore, hlow, hhigh⟩
    · obtain ⟨front, core', back, rfl, hcore', hstart, hstop⟩ := ih hmem
      refine ⟨gap ++ (core ++ front), core', back, by simp, hcore', ?_, hstop⟩
      simp only [joinTexts_append, byteSize_append]
      omega

end Layout

/-! ## A document that parses -/

/-- A document that was parsed from a text, with the spans of its definitions in order. -/
structure Document.LaidOut (document : Document) (text : String) (spans : List Span) : Prop where
  agree : document.definitions.map Definition.span? = spans.map some
  layout : Layout 0 (markedLexemes text.toList) spans
  lexed : Lexed 0 text.toList (lexemes text.toList)
  texts : (readDocument text.toList).texts = (markedLexemes text.toList).map Lexeme.text

theorem Syntax.DefinitionNode.span?_toDefinition (node : DefinitionNode) :
    node.toDefinition.span? = significantSpan? node.lexemes := by
  unfold DefinitionNode.toDefinition
  cases node.head <;> rfl

/-- What reading a text gives when the text parses. -/
theorem Document.of_parse {text : String} {document : Document}
    (h : Document.parse text = .ok document) :
    (readDocument text.toList).errors = [] ∧ (readDocument text.toList).definitions ≠ [] ∧
      document = ⟨(readDocument text.toList).definitions.map DefinitionNode.toDefinition⟩ := by
  unfold Document.parse at h
  simp only at h
  split at h
  · rename_i herrors
    split at h
    · simp at h
    · rename_i hdefinitions
      refine ⟨by simpa using herrors, by simpa using hdefinitions, ?_⟩
      exact (Except.ok.inj h).symm
  · simp at h

/-- A text that is read without errors, and defines something, parses. -/
theorem Document.parse_of_errors_eq_nil {text : String}
    (herrors : (readDocument text.toList).errors = [])
    (hdefinitions : (readDocument text.toList).definitions ≠ []) :
    Document.parse text =
      .ok ⟨(readDocument text.toList).definitions.map DefinitionNode.toDefinition⟩ := by
  simp [Document.parse, herrors, hdefinitions]

/-- What reading a text gives when the text does not parse. -/
theorem Document.of_parse_error {text : String} {failure : ParseFailure}
    (h : Document.parse text = .error failure) :
    failure = .noDefinitions ∨
      ((readDocument text.toList).errors ≠ [] ∧ failure = ⟨(readDocument text.toList).errors⟩) := by
  unfold Document.parse at h
  simp only at h
  split at h
  next =>
    split at h
    next => exact Or.inl (Except.error.inj h).symm
    next => cases h
  next herrors => exact Or.inr ⟨by simpa using herrors, (Except.error.inj h).symm⟩

/-- A text that does not parse has an error. -/
theorem Document.errors_ne_nil_of_parse {text : String} {failure : ParseFailure}
    (h : Document.parse text = .error failure) : failure.errors ≠ [] := by
  obtain rfl | ⟨herrors, rfl⟩ := Document.of_parse_error h
  · exact List.cons_ne_nil _ _
  · exact herrors

/-- The empty text does not parse. -/
theorem Document.text_ne_nil {text : String} {document : Document}
    (h : Document.parse text = .ok document) : text.toList ≠ [] := by
  intro hnil
  obtain ⟨herrors, -, -⟩ := Document.of_parse h
  rw [hnil] at herrors
  exact absurd herrors (by decide)

namespace Syntax.DocumentTree.Lossless
variable {tree : DocumentTree} {text : List Char} {lead last : List Lexeme}

/-- What stands in front of the first definition means nothing. -/
theorem ignored_lead (h : tree.Lossless text lead last) :
    ∀ lexeme ∈ lead, isIgnoredText lexeme.text = true := by
  intro lexeme hmem
  obtain ⟨kind, hkind, htrivia⟩ := h.lead lexeme hmem
  have hend : kind ≠ .endOfText := by
    rintro rfl
    simp [TokenKind.isTrivia] at htrivia
  have hmarked : lexeme ∈ markedLexemes text := by
    rw [h.split]
    exact List.mem_append_left _ hmem
  rw [isIgnoredText_of_mem_markedLexemes (lexemes_lexed h.sound) hmarked hkind hend, htrivia]

/-- What stands behind the last definition means nothing. -/
theorem ignored_last (h : tree.Lossless text lead last) :
    ∀ lexeme ∈ last, isIgnoredText lexeme.text = true := by
  intro lexeme hmem
  rcases h.last with hnil | hmark
  · simp [hnil] at hmem
  · rw [hmark, List.mem_singleton] at hmem
    rw [hmem]
    exact isIgnoredText_endMark text

/-- A definition begins with something significant. -/
theorem significant_first (h : tree.Lossless text lead last) :
    ∀ node ∈ tree.definitions, ∃ first rest, node.lexemes = first :: rest ∧
      isIgnoredText first.text = false := by
  intro node hnode
  obtain ⟨first, rest, hlexemes, hopens⟩ := h.opens node hnode
  have hmem : first ∈ markedLexemes text := by
    rw [h.split]
    refine List.mem_append_right _ (List.mem_append_left _ (List.mem_flatMap.mpr ⟨node, hnode, ?_⟩))
    rw [hlexemes]
    exact List.mem_cons_self ..
  have hlexed := lexemes_lexed h.sound
  refine ⟨first, rest, hlexemes, ?_⟩
  rcases hopens with hkind | hkind | hkind <;>
    exact isIgnoredText_of_mem_markedLexemes hlexed hmem hkind (by simp)

end Syntax.DocumentTree.Lossless

/-- **A document that parses is laid out in its text.** -/
theorem Document.exists_laidOut {text : String} {document : Document}
    (h : Document.parse text = .ok document) : ∃ spans, document.LaidOut text spans := by
  obtain ⟨herrors, -, rfl⟩ := Document.of_parse h
  obtain ⟨lead, last, hlossless⟩ := readDocument_layout herrors
  have hlexed := lexemes_lexed hlossless.sound
  have hplaced := placed_markedLexemes hlexed
  rw [hlossless.split] at hplaced
  obtain ⟨spans, hlayout, hspans⟩ := exists_layout hlossless.ignored_lead hlossless.ignored_last
    hlossless.significant_first hplaced
  refine ⟨spans, ?_, ?_, hlexed, hlossless.texts⟩
  · rw [← hspans, List.map_map]
    exact List.map_congr_left fun node _ => node.span?_toDefinition
  · rw [hlossless.split]
    exact hlayout

/-- The spans are those of the definitions. -/
theorem Document.LaidOut.mem_iff {document : Document} {text : String} {spans : List Span}
    (h : document.LaidOut text spans) {span : Span} :
    span ∈ spans ↔ ∃ definition ∈ document.definitions, definition.span? = some span := by
  rw [← List.mem_map, h.agree]
  simp

/-- Every definition has a span. -/
theorem Document.LaidOut.exists_span {document : Document} {text : String} {spans : List Span}
    (h : document.LaidOut text spans) {definition : Definition}
    (hmem : definition ∈ document.definitions) :
    ∃ span ∈ spans, definition.span? = some span := by
  have hspan : definition.span? ∈ spans.map some := by
    rw [← h.agree]
    exact List.mem_map_of_mem hmem
  obtain ⟨span, hspanMem, hplace⟩ := List.mem_map.mp hspan
  exact ⟨span, hspanMem, hplace.symm⟩

/-- A definition and its span stand at the same place of the two lists. -/
theorem Document.LaidOut.exists_index {document : Document} {text : String} {spans : List Span}
    (h : document.LaidOut text spans) {definition : Definition}
    (hmem : definition ∈ document.definitions) {span : Span} (hplace : definition.span? = some span) :
    ∃ i : Nat, document.definitions[i]? = some definition ∧ spans[i]? = some span := by
  obtain ⟨i, hi⟩ := List.getElem?_of_mem hmem
  refine ⟨i, hi, ?_⟩
  have hmap : (document.definitions.map Definition.span?)[i]? = some (some span) := by
    rw [List.getElem?_map, hi, Option.map_some, hplace]
  rw [h.agree] at hmap
  simpa using hmap

/-- What holds between any two spans holds between the spans of any two definitions. -/
theorem Document.LaidOut.definitions_pairwise {document : Document} {text : String}
    {spans : List Span} (h : document.LaidOut text spans) {R : Span → Span → Prop}
    (hspans : spans.Pairwise R) :
    document.definitions.Pairwise fun a b =>
      ∀ s t, a.span? = some s → b.span? = some t → R s t := by
  have hmap : (spans.map some).Pairwise fun x y => ∀ s t, x = some s → y = some t → R s t := by
    rw [List.pairwise_map]
    refine hspans.imp ?_
    rintro a b hab s t ⟨⟩ ⟨⟩
    exact hab
  rwa [← h.agree, List.pairwise_map] at hmap

/-- **No definition ends in a line terminator.** -/
theorem Document.LaidOut.exists_cut_stop {document : Document} {text : String} {spans : List Span}
    (h : document.LaidOut text spans) {span : Span} (hmem : span ∈ spans) :
    ∃ pre suf, text.toList = pre ++ suf ∧ byteSize pre = span.stop ∧
      ∀ c, pre.getLast? = some c → endsLine c = false := by
  obtain ⟨front, core, back, hrun, hcore, hstart, hstop⟩ := h.layout.core_of_mem hmem
  refine ⟨joinTexts front ++ joinTexts core, joinTexts back, ?_, ?_, ?_⟩
  · rw [← joinTexts_markedLexemes h.lexed, hrun, joinTexts_append, joinTexts_append, List.append_assoc]
  · rw [byteSize_append, hstop, hstart, Nat.zero_add]
  · intro c hc
    obtain ⟨before, last, rfl, hlast⟩ := hcore.last
    have hmarked : last ∈ markedLexemes text.toList := by
      rw [hrun]
      simp
    obtain ⟨hlexeme, -⟩ := mem_lexemes_of_significant h.lexed hmarked hlast
    obtain ⟨kind, tail, hkind, hform⟩ := h.lexed.exists_of_mem hlexeme
    apply hform.endsLine_getLast
    · rintro rfl
      rw [hform.isIgnoredText_eq] at hlast
      exact absurd hlast (by decide)
    · simpa [List.getLast?_append, List.getLast?_eq_some_getLast hform.ne_nil] using hc

end QueryLocator
