import Mathlib.Data.List.Basic
import QueryLocator.Classification
import QueryLocator.Proofs.CursorSpan
import QueryLocator.Proofs.DefinitionHeads

/-! # Definitions and their tokens

The span of a definition holds the tokens that the definition was read from, and no others that
count (`significantTokens_eq`).  So what a definition says, its kind, its name and its type
condition, can be checked against the text: it is what the tokens in its span spell
(`parse_reflects_tokens`).
-/
namespace QueryLocator

open Text Syntax

/-- The significant tokens of a text that stand in a span, in order. -/
def significantTokens (text : List Char) (span : Span) : List Lexeme :=
  (significant (lexemes text)).filter fun lexeme => span.contains lexeme.span

/-! ## The tokens in a span -/

section Span
variable {text : List Char}

theorem Placed.bounds {offset : Nat} {run : List Lexeme} (h : Placed offset run) {lexeme : Lexeme}
    (hmem : lexeme ∈ run) :
    offset ≤ lexeme.span.start ∧ lexeme.span.stop ≤ offset + byteSize (joinTexts run) := by
  have hspan : lexeme.span ∈ consecutiveSpans offset (run.map Lexeme.text) :=
    h.consecutiveSpans_eq ▸ List.mem_map_of_mem hmem
  obtain ⟨hstart, -, hstop⟩ := consecutiveSpans_bounds hspan
  exact ⟨hstart, hstop⟩

/-- A significant lexeme is a token of the text, and not empty. -/
theorem mem_lexemes_of_isSignificant {lexeme : Lexeme} (hmem : lexeme ∈ markedLexemes text)
    (hsignificant : lexeme.isSignificant = true) :
    lexeme ∈ lexemes text ∧ lexeme.span.start < lexeme.span.stop := by
  rw [markedLexemes_eq, List.mem_append, List.mem_singleton] at hmem
  rcases hmem with hmem | rfl
  · refine ⟨hmem, ?_⟩
    cases hkind : lexeme.kind with
    | error fault => simp [Lexeme.isSignificant, hkind] at hsignificant
    | ok kind =>
      obtain ⟨tail, hform⟩ := exists_form_of_mem hmem hkind
      have := Text.byteSize_pos hform.ne_nil
      simp only [Lexeme.span]
      omega
  · simp [Lexeme.isSignificant, endMark] at hsignificant

/-- **A stretch of the lexemes has the significant tokens in its span.** -/
theorem significantTokens_eq (hplaced : Placed 0 (markedLexemes text))
    {front core back : List Lexeme}
    (hsplit : markedLexemes text = front ++ (core ++ back)) {span : Span}
    (hstart : span.start = byteSize (joinTexts front))
    (hstop : span.stop = span.start + byteSize (joinTexts core)) :
    significantTokens text span = significant core := by
  have hmarked : significant (lexemes text) = significant (markedLexemes text) := by
    rw [markedLexemes_eq, significant_append]
    simp [significant, Lexeme.isSignificant, endMark]
  have hinside {part : List Lexeme} (hpart : ∀ lexeme ∈ part, lexeme ∈ markedLexemes text) :
      ∀ lexeme ∈ significant part, lexeme ∈ part ∧ lexeme.span.start < lexeme.span.stop := by
    intro lexeme hmem
    obtain ⟨hmem, hsignificant⟩ := List.mem_filter.mp hmem
    exact ⟨hmem, (mem_lexemes_of_isSignificant (hpart lexeme hmem) hsignificant).2⟩
  have hparts := hplaced
  rw [hsplit, placed_append, placed_append, Nat.zero_add, ← hstart, ← hstop] at hparts
  obtain ⟨hfront, hcore, hback⟩ := hparts
  have hnoFront : (significant front).filter (fun lexeme => span.contains lexeme.span) = [] := by
    refine List.filter_eq_nil_iff.mpr fun lexeme hmem => ?_
    obtain ⟨hmem, hwide⟩ := hinside (fun l hl => by simp [hsplit, hl]) lexeme hmem
    have := (hfront.bounds hmem).2
    rw [Span.contains_iff]
    omega
  have hnoBack : (significant back).filter (fun lexeme => span.contains lexeme.span) = [] := by
    refine List.filter_eq_nil_iff.mpr fun lexeme hmem => ?_
    obtain ⟨hmem, hwide⟩ := hinside (fun l hl => by simp [hsplit, hl]) lexeme hmem
    have := (hback.bounds hmem).1
    rw [Span.contains_iff]
    omega
  have hall : (significant core).filter (fun lexeme => span.contains lexeme.span) =
      significant core := by
    refine List.filter_eq_self.mpr fun lexeme hmem => ?_
    have := hcore.bounds (List.mem_filter.mp hmem).1
    rw [Span.contains_iff]
    omega
  rw [significantTokens, hmarked, hsplit, significant_append, significant_append,
    List.filter_append, List.filter_append, hnoFront, hall, hnoBack, List.nil_append,
    List.append_nil]

/-- A lexeme that is ignored for its text is no significant token. -/
theorem significant_eq_nil_of_ignored {run : List Lexeme} (hlexed : Lexed 0 text (lexemes text))
    (hmarked : ∀ lexeme ∈ run, lexeme ∈ markedLexemes text)
    (hignored : ∀ lexeme ∈ run, isIgnoredText lexeme.text = true) : significant run = [] := by
  refine List.filter_eq_nil_iff.mpr fun lexeme hmem hsignificant => ?_
  obtain ⟨hlexeme, -⟩ := mem_lexemes_of_isSignificant (hmarked lexeme hmem) hsignificant
  obtain ⟨kind, tail, hkind, hform⟩ := hlexed.exists_of_mem hlexeme
  have htrivia := hform.isIgnoredText_eq.symm.trans (hignored lexeme hmem)
  simp [Lexeme.isSignificant_of_kind hkind, htrivia] at hsignificant

/-- **A definition was read from the tokens in its span**, and they spell it. -/
theorem Syntax.DocumentTree.Lossless.spells {tree : DocumentTree} {lead last : List Lexeme}
    (h : tree.Lossless text lead last) {node : DefinitionNode} (hnode : node ∈ tree.definitions) :
    ∃ span, significantSpan? node.lexemes = some span ∧
      Spells (significantTokens text span) node.head := by
  have hlexed := lexemes_lexed h.sound
  have hplaced := placed_markedLexemes hlexed
  obtain ⟨first, rest, hlexemes, hopens⟩ := h.opens node hnode
  obtain ⟨r, hread, hahead⟩ := h.read node hnode
  have hspells : Spells (significant node.lexemes) node.head := by
    rw [hlexemes]
    exact definition_spells ⟨hread.ready, hahead, hread.goesOn⟩ hread.head
      (hlexemes ▸ hread.reads) hopens hread.errors
  -- the lexemes of the node are its core and trivia, and the span is that of the core
  obtain ⟨first', rest', hlexemes', hfirst⟩ := h.significant_first node hnode
  obtain ⟨core, trailing, hcoreSplit, hcore, htrailing⟩ := @exists_core first' rest' hfirst
  obtain ⟨before, after, hdefinitions⟩ := List.append_of_mem hnode
  have hsplit : markedLexemes text = (lead ++ before.flatMap DefinitionNode.lexemes) ++
      (core ++ (trailing ++ (after.flatMap DefinitionNode.lexemes ++ last))) := by
    rw [h.split, hdefinitions, List.flatMap_append, List.flatMap_cons, hlexemes', hcoreSplit]
    simp only [List.append_assoc]
  have hnone : significant trailing = [] :=
    significant_eq_nil_of_ignored hlexed (fun lexeme hmem => by simp [hsplit, hmem]) htrailing
  have hplacedCore := (placed_append.mp (placed_append.mp (hsplit ▸ hplaced)).2).1
  rw [Nat.zero_add] at hplacedCore
  have hspan := significantSpan?_eq hcore htrailing hplacedCore
  rw [hlexemes', hcoreSplit] at hspells ⊢
  refine ⟨_, hspan, ?_⟩
  rw [significantTokens_eq hplaced hsplit rfl rfl]
  rwa [significant_append, hnone, List.append_nil] at hspells

end Span

/-! ## What the tokens tell -/

/-- A text that is a name: a letter or an underscore, then letters, digits and underscores. -/
def NameText (text : String) : Prop :=
  ∃ c rest, text.toList = c :: rest ∧ (c = '_' ∨ ('A' ≤ c ∧ c ≤ 'Z') ∨ ('a' ≤ c ∧ c ≤ 'z')) ∧
    ∀ d ∈ rest, d = '_' ∨ ('0' ≤ d ∧ d ≤ '9') ∨ ('A' ≤ d ∧ d ≤ 'Z') ∨ ('a' ≤ d ∧ d ≤ 'z')

theorem letter_of_isNameStart {c : Char} (h : isNameStart c = true) :
    c = '_' ∨ ('A' ≤ c ∧ c ≤ 'Z') ∨ ('a' ≤ c ∧ c ≤ 'z') := by
  simp only [Char.le_def, UInt32.le_iff_toNat_le]
  rcases toNat_of_isNameStart h with hupper | hlower | hmark
  · exact Or.inr (Or.inl hupper)
  · exact Or.inr (Or.inr hlower)
  · exact Or.inl (Char.ext (UInt32.toNat_inj.mp hmark))

theorem letter_or_digit_of_isNameContinue {c : Char} (h : isNameContinue c = true) :
    c = '_' ∨ ('0' ≤ c ∧ c ≤ '9') ∨ ('A' ≤ c ∧ c ≤ 'Z') ∨ ('a' ≤ c ∧ c ≤ 'z') := by
  have hclass : isNameStart c = true ∨ c.isDigit = true := by
    simp only [isNameContinue, isNameStart, Char.isAlphanum, Bool.or_eq_true] at h ⊢
    grind
  rcases hclass with hstart | hdigit
  · exact (letter_of_isNameStart hstart).imp_right Or.inr
  · simp only [Char.le_def, UInt32.le_iff_toNat_le]
    exact Or.inr (Or.inl (toNat_of_isDigit hdigit))

/-- The tokens that are names have such texts. -/
theorem nameText_of_mem {text : List Char} {lexeme : Lexeme} (hmem : lexeme ∈ lexemes text)
    (hnamed : lexeme.IsNamed) : NameText (String.ofList lexeme.text) := by
  obtain ⟨tail, hform⟩ := exists_form_of_mem hmem hnamed
  obtain ⟨c, body, htext, hstart, hbody⟩ := hform.name_text
  exact ⟨c, body, by rw [String.toList_ofList, htext], letter_of_isNameStart hstart,
    fun d hd => letter_or_digit_of_isNameContinue (hbody d hd)⟩

/-- The names in a definition: its own, and the type that a fragment applies to. -/
def Definition.names : Definition → List String
  | operation _ name _ => name.toList
  | fragment name typeCondition _ => name.toList ++ typeCondition.toList
  | other _ => []

/-- The name of an operation, seen from the keyword that its tokens begin with. -/
def namedOperation? : List Lexeme → Option String
  | first :: rest =>
    if (OperationType.ofKeyword? (String.ofList first.text)).isSome then leadingName? rest else none
  | [] => none

/-- A definition is what its tokens spell.  Behind the description, if there is one, they begin with
a token whose text is `word`, and `rest` are the tokens behind that. -/
structure Definition.Reflects (definition : Definition) (tokens : List Lexeme) (word : String)
    (rest : List Lexeme) : Prop where
  begins : ∃ first, behindDescription tokens = first :: rest ∧ String.ofList first.text = word
  operation : (∃ type name span, definition = .operation type name span) ↔
    word = "\x7b" ∨ ∃ type : OperationType, word = type.keyword
  /-- Selections alone are a query without a name. -/
  selections : word = "\x7b" → ∃ span, definition = .operation .query none span
  /-- The keyword gives the type, and a name behind it is the name. -/
  keyword : ∀ type : OperationType, word = type.keyword →
    ∃ name span, definition = .operation type name span ∧
      ∀ n, name = some n ↔
        ∃ token more, rest = token :: more ∧ token.IsNamed ∧ String.ofList token.text = n
  fragment : (∃ name condition span, definition = .fragment name condition span) ↔
    word = "fragment"
  /-- A fragment, in front of which the grammar has no description, is the keyword, its name, the
  word `on` and its type condition. -/
  spelledOut : word = "fragment" → behindDescription tokens = tokens →
    ∃ name on condition more span, rest = name :: on :: condition :: more ∧ name.IsNamed ∧
      on.IsWord "on" ∧ condition.IsNamed ∧ definition =
        .fragment (some (String.ofList name.text)) (some (String.ofList condition.text)) span
  /-- Where a description stands in front of a fragment all the same, the keyword is taken for the
  name. -/
  described : word = "fragment" → behindDescription tokens ≠ tokens →
    ∃ on condition more span, rest = on :: condition :: more ∧ on.IsWord "on" ∧ condition.IsNamed ∧
      definition = .fragment (some "fragment") (some (String.ofList condition.text)) span
  other : (∃ span, definition = .other span) ↔ word ∉ executableWords
  unknown : definition.classify.kind = .unknown ↔ ∃ span, definition = .other span
  names : ∀ name ∈ definition.names, NameText name

/-- The definition with a head, at a span. -/
def Syntax.Head.definition (head : Head) (span : Option Span) : Definition :=
  match head with
  | .operation type name => .operation type name span
  | .fragment name typeCondition => .fragment name typeCondition span
  | .typeSystem => .other span

theorem Syntax.DefinitionNode.toDefinition_eq (node : DefinitionNode) :
    node.toDefinition = node.head.definition (significantSpan? node.lexemes) := by
  unfold DefinitionNode.toDefinition Head.definition
  cases node.head <;> rfl

/-! ## What is spelled is reflected -/

section Keywords
variable (type : OperationType)

@[simp] theorem OperationType.keyword_ne_brace : type.keyword ≠ "\x7b" := by
  cases type <;> decide

@[simp] theorem OperationType.brace_ne_keyword : "\x7b" ≠ type.keyword :=
  type.keyword_ne_brace.symm

@[simp] theorem OperationType.keyword_ne_fragment : type.keyword ≠ "fragment" := by
  cases type <;> decide

@[simp] theorem OperationType.fragment_ne_keyword : "fragment" ≠ type.keyword :=
  type.keyword_ne_fragment.symm

@[simp] theorem OperationType.keyword_mem : type.keyword ∈ executableWords := by
  cases type <;> decide

theorem OperationType.ofKeyword?_keyword : OperationType.ofKeyword? type.keyword = some type := by
  cases type <;> rfl

theorem OperationType.keyword_injective : Function.Injective OperationType.keyword := by
  intro a b h
  exact Option.some.inj (by rw [← a.ofKeyword?_keyword, h, b.ofKeyword?_keyword])

end Keywords

/-- Exactly the definitions of the type system are unknown. -/
theorem Definition.classify_eq_unknown_iff (definition : Definition) :
    definition.classify.kind = .unknown ↔ ∃ span, definition = .other span := by
  cases definition with
  | operation type => cases type <;> simp [Definition.classify, OperationType.kind]
  | fragment => simp [Definition.classify]
  | other => simp [Definition.classify]

section Reflects
variable {tokens : List Lexeme} {head : Head} {span : Option Span}

theorem Syntax.Lexeme.IsWord.ofList_eq {token : Lexeme} {word : String} (h : token.IsWord word) :
    String.ofList token.text = word := by
  rw [h.2, String.ofList_toList]

theorem Syntax.Lexeme.IsNamed.behindDescription {token : Lexeme} {rest : List Lexeme}
    (h : token.IsNamed) : behindDescription (token :: rest) = token :: rest :=
  behindDescription_of_kind rest h (by simp)

/-- **What tokens spell reflects them.** -/
theorem reflects_of_spells (h : Spells tokens head)
    (hnames : ∀ token ∈ tokens, token.IsNamed → NameText (String.ofList token.text)) :
    ∃ word rest, (head.definition span).Reflects tokens word rest := by
  have hunknown := (head.definition span).classify_eq_unknown_iff
  cases h with
  | @selections brace rest hbrace htext =>
    exact ⟨"\x7b", rest, {
      begins := ⟨brace, behindDescription_of_kind rest hbrace (by simp), by rw [htext]⟩
      operation := by simp [Head.definition]
      selections := fun _ => ⟨span, rfl⟩
      keyword := by simp
      fragment := by simp [Head.definition]
      spelledOut := by simp
      described := by simp
      other := by simp [Head.definition, executableWords]
      unknown := hunknown
      names := by simp [Head.definition, Definition.names] }⟩
  | @operation keyword rest type hkeyword =>
    exact ⟨type.keyword, rest, {
      begins := ⟨keyword, hkeyword.1.behindDescription, hkeyword.ofList_eq⟩
      operation := ⟨fun _ => Or.inr ⟨type, rfl⟩, fun _ => ⟨type, leadingName? rest, span, rfl⟩⟩
      selections := by simp
      keyword := by
        intro other hother
        obtain rfl := OperationType.keyword_injective hother
        exact ⟨leadingName? rest, span, rfl, fun name => leadingName?_eq_some_iff⟩
      fragment := by simp [Head.definition]
      spelledOut := by simp
      described := by simp
      other := by simp [Head.definition]
      unknown := hunknown
      names := by
        intro name hmem
        obtain ⟨token, more, rfl, hnamed, rfl⟩ :=
          leadingName?_eq_some_iff.mp (Option.mem_toList.mp hmem)
        exact hnames token (by simp) hnamed }⟩
  | @fragment keyword name on condition rest hkeyword hname hon hcondition =>
    exact ⟨"fragment", name :: on :: condition :: rest, {
      begins := ⟨keyword, hkeyword.1.behindDescription, hkeyword.ofList_eq⟩
      operation := by simp [Head.definition]
      selections := by simp
      keyword := by simp
      fragment := by simp [Head.definition]
      spelledOut := fun _ _ => ⟨name, on, condition, rest, span, rfl, hname, hon, hcondition, rfl⟩
      described := fun _ hdescribed => absurd hkeyword.1.behindDescription hdescribed
      other := by simp [Head.definition, executableWords]
      unknown := hunknown
      names := by
        have hboth := And.intro (hnames name (by simp) hname)
          (hnames condition (by simp) hcondition)
        simpa [Head.definition, Definition.names] using hboth }⟩
  | @describedFragment description keyword on condition rest hdescription hkeyword hon hcondition =>
    have hbehind := behindDescription_of_string (keyword :: on :: condition :: rest) hdescription
    exact ⟨"fragment", on :: condition :: rest, {
      begins := ⟨keyword, hbehind, hkeyword.ofList_eq⟩
      operation := by simp [Head.definition]
      selections := by simp
      keyword := by simp
      fragment := by simp [Head.definition]
      spelledOut := by
        intro _ hundescribed
        have hlength := congrArg List.length (hbehind.symm.trans hundescribed)
        simp at hlength
      described := fun _ _ => ⟨on, condition, rest, span, rfl, hon, hcondition, rfl⟩
      other := by simp [Head.definition, executableWords]
      unknown := hunknown
      names := by
        have hkeywordName := hnames keyword (by simp) hkeyword.1
        rw [hkeyword.ofList_eq] at hkeywordName
        have hboth := And.intro hkeywordName (hnames condition (by simp) hcondition)
        simpa [Head.definition, Definition.names] using hboth }⟩
  | @typeSystem tokens rest first htokens hword =>
    have hne (word : String) (hmem : word ∈ executableWords) : String.ofList first.text ≠ word :=
      fun heq => hword (heq ▸ hmem)
    have hbrace := hne "\x7b" (by decide)
    have hfragment := hne "fragment" (by decide)
    have hkeyword (type : OperationType) := hne type.keyword type.keyword_mem
    exact ⟨String.ofList first.text, rest, {
      begins := ⟨first, htokens, rfl⟩
      operation := by simp [Head.definition, hbrace, hkeyword]
      selections := fun heq => absurd heq hbrace
      keyword := fun type heq => absurd heq (hkeyword type)
      fragment := by simp [Head.definition, hfragment]
      spelledOut := fun heq => absurd heq hfragment
      described := fun heq => absurd heq hfragment
      other := by simp [Head.definition, hword]
      unknown := hunknown
      names := by simp [Head.definition, Definition.names] }⟩

/-- The name of an operation can be read off the tokens that spell it. -/
theorem operationName?_of_spells (h : Spells tokens head) :
    (head.definition span).operationName? = namedOperation? (behindDescription tokens) := by
  cases h with
  | @selections brace rest hbrace htext =>
    rw [behindDescription_of_kind rest hbrace (by simp), namedOperation?, htext]
    rfl
  | @operation keyword rest type hkeyword =>
    rw [hkeyword.1.behindDescription, namedOperation?, hkeyword.ofList_eq,
      OperationType.ofKeyword?_keyword]
    rfl
  | @fragment keyword name on condition rest hkeyword hname hon hcondition =>
    rw [hkeyword.1.behindDescription, namedOperation?, hkeyword.ofList_eq]
    rfl
  | @describedFragment description keyword on condition rest hdescription hkeyword hon hcondition =>
    rw [behindDescription_of_string _ hdescription, namedOperation?, hkeyword.ofList_eq]
    rfl
  | @typeSystem tokens rest first htokens hword =>
    have hnone : OperationType.ofKeyword? (String.ofList first.text) = none := by
      cases htype : OperationType.ofKeyword? (String.ofList first.text) with
      | none => rfl
      | some type => exact absurd (keyword_of_ofKeyword? htype ▸ type.keyword_mem) hword
    rw [htokens, namedOperation?, hnone]
    rfl

end Reflects

/-! ## Documents that parse -/

section Parse
variable {text : String} {document : Document}

/-- A definition of a document that parses has a span, and the tokens in it spell it. -/
theorem Document.exists_spells (h : Document.parse text = .ok document) {definition : Definition}
    (hmem : definition ∈ document.definitions) :
    ∃ head span, definition = head.definition (some span) ∧
      Spells (significantTokens text.toList span) head := by
  obtain ⟨herrors, -, rfl⟩ := Document.of_parse h
  obtain ⟨lead, last, hlossless⟩ := readDocument_layout herrors
  obtain ⟨node, hnode, rfl⟩ := List.mem_map.mp hmem
  obtain ⟨span, hspan, hspells⟩ := hlossless.spells hnode
  exact ⟨node.head, span, by rw [node.toDefinition_eq, hspan], hspells⟩

theorem Syntax.Head.span?_definition (head : Head) (span : Option Span) :
    (head.definition span).span? = span := by
  cases head <;> rfl

/-- A definition of a document that parses reflects the tokens in its span. -/
theorem Document.exists_reflects (h : Document.parse text = .ok document) {definition : Definition}
    (hmem : definition ∈ document.definitions) :
    ∃ span word rest, definition.span? = some span ∧
      definition.Reflects (significantTokens text.toList span) word rest := by
  obtain ⟨head, span, rfl, hspells⟩ := Document.exists_spells h hmem
  obtain ⟨word, rest, hreflects⟩ := @reflects_of_spells _ _ (some span) hspells
    fun token htoken hnamed =>
      nameText_of_mem (List.mem_filter.mp (List.mem_filter.mp htoken).1).1 hnamed
  exact ⟨span, word, rest, head.span?_definition _, hreflects⟩

/-- **Definitions say what their tokens say.**  In a text that parses every definition has a span,
and the tokens in it tell whether the definition is an operation or a fragment, of which type it is,
and what its names are.  The names of the operations are those that their tokens give, in the order
in which the operations stand in the text. -/
theorem parse_reflects_tokens (h : Document.parse text = .ok document) :
    (∀ definition ∈ document.definitions, ∃ span word rest, definition.span? = some span ∧
      definition.Reflects (significantTokens text.toList span) word rest) ∧
    document.operationNames = document.definitions.filterMap fun definition =>
      definition.span?.bind fun span =>
        namedOperation? (behindDescription (significantTokens text.toList span)) := by
  constructor
  · intro definition hmem
    exact Document.exists_reflects h hmem
  · refine List.filterMap_congr fun definition hmem => ?_
    obtain ⟨head, span, rfl, hspells⟩ := Document.exists_spells h hmem
    rw [head.span?_definition, Option.bind_some, operationName?_of_spells hspells]

/-- Names that are keywords, a comma and a comment between the tokens of an operation, an operation
without a name but with variables, and a described type. -/
theorem parse_reflects_tokens_of_keywords :
    ∃ document,
      Document.parse ("query,query#c\n\x7ba\x7dmutation($v:T)\x7ba\x7d" ++
        "fragment fragment on on\x7ba\x7d\"d\"type query") = .ok document ∧
      document.definitions = [.operation .query (some "query") (some ⟨0, 17⟩),
        .operation .mutation none (some ⟨17, 34⟩),
        .fragment (some "fragment") (some "on") (some ⟨34, 60⟩), .other (some ⟨60, 73⟩)] ∧
      (∀ definition ∈ document.definitions, ∃ span word rest, definition.span? = some span ∧
        definition.Reflects (significantTokens ("query,query#c\n\x7ba\x7dmutation($v:T)\x7ba\x7d" ++
          "fragment fragment on on\x7ba\x7d\"d\"type query").toList span) word rest) ∧
      document.operationNames = ["query"] := by
  obtain ⟨hreflects, -⟩ := parse_reflects_tokens
    (show Document.parse ("query,query#c\n\x7ba\x7dmutation($v:T)\x7ba\x7d" ++
      "fragment fragment on on\x7ba\x7d\"d\"type query") = .ok _ from rfl)
  exact ⟨_, rfl, rfl, hreflects, rfl⟩

/-- A description in front of a fragment is taken for its keyword. -/
example : Document.parse "\"d\"fragment on T\x7ba\x7d" =
    .ok ⟨[.fragment (some "fragment") (some "T") (some ⟨0, 19⟩)]⟩ := by
  rfl

end Parse

end QueryLocator
