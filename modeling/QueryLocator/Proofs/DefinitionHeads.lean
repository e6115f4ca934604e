import QueryLocator.Proofs.TokenReading

/-! # What the tokens of a definition spell

A definition begins with a word, after a description if there is one, and what it defines can be
read off that word and the tokens behind it (`Spells`).  Reading keeps to this: a definition that is
read without errors takes tokens that spell what it was read as (`definition_spells`), one lemma for
each way in which definitions begin.
-/
namespace QueryLocator.Syntax

open Reading Rule

/-- The tokens of a definition without the description in front of it. -/
def behindDescription : List Lexeme → List Lexeme
  | ⟨.ok .string, _, _⟩ :: rest => rest
  | tokens => tokens

theorem behindDescription_of_string {first : Lexeme} (rest : List Lexeme)
    (hkind : first.kind = .ok .string) : behindDescription (first :: rest) = rest := by
  obtain ⟨_, _, _⟩ := first
  obtain rfl := hkind
  rfl

theorem behindDescription_of_kind {first : Lexeme} (rest : List Lexeme) {kind : TokenKind}
    (hkind : first.kind = .ok kind) (hstring : kind ≠ .string) :
    behindDescription (first :: rest) = first :: rest := by
  obtain ⟨_, _, _⟩ := first
  obtain rfl := hkind
  unfold behindDescription
  split
  · simp_all
  · rfl

/-- The name that some tokens begin with. -/
def leadingName? : List Lexeme → Option String
  | ⟨.ok .name, text, _⟩ :: _ => some (String.ofList text)
  | _ => none

/-- The words with which operations and fragments begin. -/
def executableWords : List String :=
  ["\x7b", "query", "mutation", "subscription", "fragment"]

/-- A token is a name. -/
def Lexeme.IsNamed (lexeme : Lexeme) : Prop :=
  lexeme.kind = .ok .name

/-- A token is a name with a text. -/
def Lexeme.IsWord (lexeme : Lexeme) (word : String) : Prop :=
  lexeme.IsNamed ∧ lexeme.text = word.toList

/-- Tokens that spell what a definition defines. -/
inductive Spells : List Lexeme → Head → Prop where
  | selections {brace : Lexeme} {rest : List Lexeme} (hbrace : brace.kind = .ok .leftBrace)
      (htext : brace.text = ['\x7b']) : Spells (brace :: rest) (.operation .query none)
  | operation {keyword : Lexeme} {rest : List Lexeme} {type : OperationType}
      (hkeyword : keyword.IsWord type.keyword) :
      Spells (keyword :: rest) (.operation type (leadingName? rest))
  | fragment {keyword name on condition : Lexeme} {rest : List Lexeme}
      (hkeyword : keyword.IsWord "fragment") (hname : name.IsNamed) (hon : on.IsWord "on")
      (hcondition : condition.IsNamed) :
      Spells (keyword :: name :: on :: condition :: rest)
        (.fragment (some (String.ofList name.text)) (some (String.ofList condition.text)))
  /-- A description in front of a fragment is taken for the keyword, and the keyword for the name.
  -/
  | describedFragment {description keyword on condition : Lexeme} {rest : List Lexeme}
      (hdescription : description.kind = .ok .string) (hkeyword : keyword.IsWord "fragment")
      (hon : on.IsWord "on") (hcondition : condition.IsNamed) :
      Spells (description :: keyword :: on :: condition :: rest)
        (.fragment (some "fragment") (some (String.ofList condition.text)))
  | typeSystem {tokens rest : List Lexeme} {first : Lexeme}
      (htokens : behindDescription tokens = first :: rest)
      (hword : String.ofList first.text ∉ executableWords) : Spells tokens .typeSystem

/-! ## Names -/

section Names
variable {s : Reading} {lexeme : Lexeme}

/-- The kind of the current token tells at which kinds the reading is. -/
theorem isAt_eq {found : TokenKind} (hcurrent : s.current? = some lexeme)
    (hkind : lexeme.kind = .ok found) (kind : TokenKind) : s.isAt kind = (found == kind) := by
  obtain ⟨_, _, _⟩ := lexeme
  obtain rfl := hkind
  rw [isAt, hcurrent]

theorem nameText?_of_current (hcurrent : s.current? = some lexeme) (hname : lexeme.IsNamed) :
    nameText? s = some (String.ofList lexeme.text) := by
  have hat : s.isAt .name = true := isAt_iff.mpr ⟨lexeme, hcurrent, hname⟩
  rw [nameText?, name?, if_pos hat, hcurrent]
  rfl

theorem nameText?_eq_none (h : s.isAt .name = false) : nameText? s = none := by
  rw [nameText?, name?, h]
  rfl

/-- Some tokens begin with a name if the first of them is one. -/
theorem leadingName?_eq_some_iff {tokens : List Lexeme} {name : String} :
    leadingName? tokens = some name ↔
      ∃ token more, tokens = token :: more ∧ token.IsNamed ∧ String.ofList token.text = name := by
  unfold leadingName?
  constructor
  · intro h
    split at h
    next text offset more => exact ⟨_, more, rfl, rfl, Option.some.inj h⟩
    next => cases h
  · rintro ⟨⟨kind, text, offset⟩, more, rfl, hnamed, rfl⟩
    obtain rfl : kind = .ok .name := hnamed
    rfl

theorem leadingName?_eq_none {tokens : List Lexeme}
    (h : ∀ lexeme, tokens.head? = some lexeme → ¬lexeme.IsNamed) : leadingName? tokens = none := by
  refine Option.eq_none_iff_forall_ne_some.mpr fun name hname => ?_
  obtain ⟨token, more, rfl, hnamed, -⟩ := leadingName?_eq_some_iff.mp hname
  exact h token rfl hnamed

theorem isWord_iff {word : String} :
    s.isWord word = true ↔ ∃ lexeme, s.current? = some lexeme ∧ lexeme.text = word.toList := by
  unfold isWord
  cases s.current? <;> simp

theorem isNamed_iff {word : String} :
    s.isNamed word = true ↔ ∃ lexeme, s.current? = some lexeme ∧ lexeme.IsWord word := by
  rw [isNamed, Bool.and_eq_true, isAt_iff, isWord_iff]
  constructor
  · rintro ⟨⟨lexeme, hcurrent, hkind⟩, found, hfound, htext⟩
    obtain rfl := Option.some.inj (hcurrent.symm.trans hfound)
    exact ⟨lexeme, hcurrent, hkind, htext⟩
  · rintro ⟨lexeme, hcurrent, hkind, htext⟩
    exact ⟨⟨lexeme, hcurrent, hkind⟩, lexeme, hcurrent, htext⟩

end Names

section Rules
variable {text : List Char} {s : Reading}

theorem Lexeme.IsNamed.isSignificant {lexeme : Lexeme} (h : lexeme.IsNamed) :
    lexeme.isSignificant = true :=
  Lexeme.isSignificant_of_kind h

/-- Where a name has to stand, and no error is found, a name is taken. -/
theorem nameOr_takes (h : s.On text) {fault : GrammarFault}
    (herrors : (nameOr fault s).errors = []) :
    ∃ lexeme, s.current? = some lexeme ∧ lexeme.IsNamed ∧ (nameOr fault s).On text ∧
      s.Takes [lexeme] (nameOr fault s) := by
  by_cases hname : s.isAt .name = true
  · have heq : nameOr fault s = s.bump := by
      simp only [nameOr, name, Rule.branch, hname, if_true]
    obtain ⟨lexeme, hcurrent, hkind⟩ := isAt_iff.mp hname
    rw [heq] at herrors ⊢
    exact ⟨lexeme, hcurrent, hkind, h.bump hcurrent (Lexeme.IsNamed.isSignificant hkind) herrors⟩
  · rw [nameOr, Rule.branch, if_neg hname] at herrors
    exact absurd herrors (h.report_errors fault)

/-- Where a word has to stand, and no error is found, that word is taken. -/
theorem word_takes (h : s.On text) {word : String} {fault : GrammarFault}
    (herrors : (branch (isNamed word) Reading.bump (report fault) s).errors = []) :
    ∃ lexeme, lexeme.IsWord word ∧ s.isNamed word = true ∧ s.bump.On text ∧
      s.Takes [lexeme] s.bump := by
  by_cases hword : s.isNamed word = true
  · rw [Rule.branch, if_pos hword] at herrors
    obtain ⟨lexeme, hcurrent, hnamed⟩ := isNamed_iff.mp hword
    exact ⟨lexeme, hnamed, hword,
      h.bump hcurrent (Lexeme.IsNamed.isSignificant hnamed.1) herrors⟩
  · rw [Rule.branch, if_neg hword] at herrors
    exact absurd herrors (h.report_errors fault)

/-! ## Operations -/

/-- The name of an operation is the first token behind its keyword, if that is a name. -/
theorem operationTail_takes (h : s.On text) (herrors : (operationTail s).errors = []) :
    ∃ tokens, s.Takes tokens (operationTail s) ∧ nameText? s = leadingName? tokens := by
  by_cases hname : s.isAt .name = true
  · have heq : operationTail s = operationBody s.bump := by
      simp only [operationTail_eq, Rule.optional, name, Rule.branch, hname, if_true]
    rw [heq] at herrors ⊢
    obtain ⟨lexeme, hcurrent, hkind⟩ := isAt_iff.mp hname
    obtain ⟨hon, hfirst⟩ := h.bump hcurrent (Lexeme.IsNamed.isSignificant hkind)
      (formed_operationBody.errors_eq_nil herrors)
    obtain ⟨-, tokens, htokens⟩ := formed_operationBody.takes hon.ready herrors
    refine ⟨lexeme :: tokens, hfirst.trans htokens, ?_⟩
    rw [nameText?_of_current hcurrent hkind]
    exact (leadingName?_eq_some_iff.mpr ⟨lexeme, tokens, rfl, hkind, rfl⟩).symm
  · obtain ⟨-, tokens, htakes⟩ := formed_operationTail.takes h.ready herrors
    refine ⟨tokens, htakes, ?_⟩
    rw [nameText?_eq_none (Bool.eq_false_iff.mpr hname), leadingName?_eq_none]
    intro lexeme hhead hnamed
    rcases h.head?_of_takes htakes with rfl | hcurrent
    · cases hhead
    · exact hname (isAt_iff.mpr ⟨lexeme, hcurrent ▸ hhead, hnamed⟩)

/-- An operation with a keyword. -/
theorem operation_spells (h : s.On text) {keyword : Lexeme} {type : OperationType} {head : Head}
    (hcurrent : s.current? = some keyword) (hkeyword : keyword.IsWord type.keyword)
    (hhead : (operation type s).2 = some head) (herrors : (operation type s).1.errors = []) :
    ∃ tokens, s.Takes tokens (operation type s).1 ∧ Spells tokens head := by
  have hname : s.isAt .name = true := isAt_eq hcurrent hkeyword.1 _
  rw [operation, if_pos hname] at hhead herrors ⊢
  obtain rfl := Option.some.inj hhead
  obtain ⟨hon, hfirst⟩ := h.bump hcurrent (Lexeme.IsNamed.isSignificant hkeyword.1)
    (formed_operationTail.errors_eq_nil herrors)
  obtain ⟨tokens, htakes, hnamed⟩ := operationTail_takes hon herrors
  exact ⟨keyword :: tokens, hfirst.trans htakes, hnamed ▸ .operation hkeyword⟩

/-! ## Fragments -/

/-- The name of a fragment is a name other than `on`, which would be an error. -/
theorem fragmentName_takes (h : s.On text) (herrors : (fragmentName s).errors = []) :
    ∃ name, s.current? = some name ∧ name.IsNamed ∧ s.isNamed "on" = false ∧
      (fragmentName s).On text ∧ s.Takes [name] (fragmentName s) := by
  by_cases hon : s.isNamed "on" = true
  · rw [fragmentName, Rule.branch, if_pos hon] at herrors
    exact absurd herrors (h.report_errors _)
  · rw [fragmentName, Rule.branch, if_neg hon] at herrors ⊢
    obtain ⟨name, hcurrent, hnamed, htakes⟩ := nameOr_takes h herrors
    exact ⟨name, hcurrent, hnamed, Bool.eq_false_iff.mpr hon, htakes⟩

/-- The condition of a fragment is the word `on` and a name. -/
theorem typeCondition_takes (h : s.On text) (herrors : (typeCondition s).errors = []) :
    ∃ on condition, on.IsWord "on" ∧ condition.IsNamed ∧
      conditionText? s = some (String.ofList condition.text) ∧ (typeCondition s).On text ∧
      s.Takes [on, condition] (typeCondition s) := by
  have hword : (branch (isNamed "on") Reading.bump (report (.expected "'on'")) s).errors = [] :=
    (formed_nameOr (.expected "a Name in Type Condition")).errors_eq_nil herrors
  obtain ⟨on, hon, hnamed, hbehind, htakes⟩ := word_takes h hword
  have heq : typeCondition s = nameOr (.expected "a Name in Type Condition") s.bump := by
    have hbranch : branch (isNamed "on") Reading.bump (report (.expected "'on'")) s = s.bump := by
      rw [Rule.branch, if_pos hnamed]
    exact congrArg (nameOr (.expected "a Name in Type Condition")) hbranch
  rw [heq] at herrors ⊢
  obtain ⟨condition, hcurrent, hcondition, hend, htakes'⟩ := nameOr_takes hbehind herrors
  refine ⟨on, condition, hon, hcondition, ?_, hend, htakes.trans htakes'⟩
  rw [conditionText?, Rule.optional, Rule.branch, if_pos hnamed,
    nameText?_of_current hcurrent hcondition]

/-- A fragment takes its first token, whatever it is, then a name, the word `on` and another name.
-/
theorem fragmentDefinition_takes (h : s.On text) {first : Lexeme} {head : Head}
    (hcurrent : s.current? = some first) (hsignificant : first.isSignificant = true)
    (hhead : (fragmentDefinition s).2 = some head)
    (herrors : (fragmentDefinition s).1.errors = []) :
    ∃ name on condition rest, s.bump.current? = some name ∧ name.IsNamed ∧ on.IsWord "on" ∧
      condition.IsNamed ∧
      s.Takes (first :: name :: on :: condition :: rest) (fragmentDefinition s).1 ∧
      head = .fragment (some (String.ofList name.text)) (some (String.ofList condition.text)) := by
  have hend : (fragmentDefinition s).1 = fragmentBody (typeCondition (fragmentName s.bump)) := rfl
  rw [hend] at herrors ⊢
  have hconditionErrors := formed_fragmentBody.errors_eq_nil herrors
  have hnameErrors := formed_typeCondition.errors_eq_nil hconditionErrors
  obtain ⟨hbehind, htakes⟩ := h.bump hcurrent hsignificant
    (formed_fragmentName.errors_eq_nil hnameErrors)
  obtain ⟨name, hname, hnamed, hnotOn, hbehindName, htakesName⟩ :=
    fragmentName_takes hbehind hnameErrors
  obtain ⟨on, condition, hon, hcondition, hconditionText, hbody, htakesCondition⟩ :=
    typeCondition_takes hbehindName hconditionErrors
  obtain ⟨-, rest, hrest⟩ := formed_fragmentBody.takes hbody.ready herrors
  refine ⟨name, on, condition, rest, hname, hnamed, hon, hcondition,
    htakes.trans (htakesName.trans (htakesCondition.trans hrest)), ?_⟩
  have hfound : (fragmentDefinition s).2 =
      some (.fragment (nameText? s.bump) (conditionText? (fragmentName s.bump))) := by
    simp only [fragmentDefinition, hnotOn, Bool.false_eq_true, if_false]
  rw [hfound, nameText?_of_current hname hnamed, hconditionText] at hhead
  exact (Option.some.inj hhead).symm

/-! ## Definitions and extensions of the type system -/

/-- A keyword of the type system is a word, and none with which operations and fragments begin. -/
theorem plain_of_typeSystemDefinition? {word : String} {rule : Rule}
    (h : typeSystemDefinition? word = some rule) :
    word.toList ≠ [] ∧ word.toList ≠ [','] ∧ word ∉ executableWords := by
  unfold typeSystemDefinition? at h
  split at h <;> first | decide | simp at h

/-- A description in front of a keyword of the type system is taken, and then the keyword. -/
theorem described_takes (h : s.On text) {description keyword : Lexeme} {word : String} {rule : Rule}
    (hcurrent : s.current? = some description) (hdescription : description.kind = .ok .string)
    (hsecond : s.second? = some keyword) (hkeyword : keyword.text = word.toList)
    (hrule : typeSystemDefinition? word = some rule) (herrors : (rule s).errors = []) :
    ∃ rest, s.Takes (description :: keyword :: rest) (rule s) := by
  obtain ⟨body, hbody, heq⟩ := exists_body_of_typeSystemDefinition? hrule
  obtain ⟨hnonempty, hcomma, -⟩ := plain_of_typeSystemDefinition? hrule
  have hstring : s.isAt .string = true := isAt_iff.mpr ⟨description, hcurrent, hdescription⟩
  have hbehind : optional (isAt .string) Reading.bump s = s.bump := if_pos hstring
  have hopening : opening word s = optional (isWord word) Reading.bump s.bump :=
    congrArg (optional (isWord word) Reading.bump) hbehind
  rw [heq] at herrors ⊢
  have hopeningErrors := hbody.errors_eq_nil herrors
  have hkeywordForm : Formed (optional (isWord word) Reading.bump) :=
    .optional (seen_isWord (endsLine_of_typeSystemDefinition? hrule)) .bump
  have hbumpErrors : s.bump.errors = [] :=
    hkeywordForm.errors_eq_nil (hopening ▸ hopeningErrors)
  have hsignificant := Lexeme.isSignificant_of_kind hdescription
  obtain ⟨hon, htakes⟩ := h.bump hcurrent hsignificant hbumpErrors
  -- what was seen behind the description is current now
  have hnext := h.current?_bump hcurrent hsignificant hsecond (hkeyword ▸ hcomma) hbumpErrors
  have hbehindKeyword : opening word s = s.bump.bump :=
    hopening.trans (if_pos (isWord_iff.mpr ⟨keyword, hnext, hkeyword⟩))
  rw [hbehindKeyword] at hopeningErrors herrors ⊢
  obtain ⟨hon', htakes'⟩ := hon.bump hnext
    (hon.isSignificant_of_text hnext (hkeyword ▸ hnonempty)) hopeningErrors
  obtain ⟨-, rest, hrest⟩ := hbody.takes hon'.ready herrors
  exact ⟨rest, htakes.trans (htakes'.trans hrest)⟩

/-- Behind a description there is no extension. -/
theorem extension_errors (h : s.On text) {second : Lexeme} (hsecond : s.second? = some second)
    (hword : String.ofList second.text = "extend") : (typeSystemExtension s).errors ≠ [] := by
  have hnone : (s.second?.map fun lexeme => String.ofList lexeme.text).bind extension? = none := by
    rw [hsecond, Option.map_some, Option.bind_some, hword]
    rfl
  rw [typeSystemExtension, hnone]
  exact h.ready.refuse_errors h.goesOn _

/-! ## The word that a definition begins with -/

/-- The word of a definition settles how it is read. -/
inductive ReadsBy (word : String) : (Reading → Reading × Option Head) → Prop where
  | selections (hword : word = "\x7b") : ReadsBy word (operation .query)
  | operation {type : OperationType} (hword : word = type.keyword) : ReadsBy word (operation type)
  | fragment (hword : word = "fragment") : ReadsBy word fragmentDefinition
  | extension (hword : word = "extend") :
      ReadsBy word fun s => (typeSystemExtension s, some .typeSystem)
  | typeSystem {rule : Rule} (hrule : typeSystemDefinition? word = some rule) :
      ReadsBy word fun s => (rule s, some .typeSystem)
  | nothing : ReadsBy word fun s => (s.refuse (.expected "definition"), none)

theorem keyword_of_ofKeyword? {word : String} {type : OperationType}
    (h : OperationType.ofKeyword? word = some type) : word = type.keyword := by
  unfold OperationType.ofKeyword? at h
  split at h
  all_goals first | (obtain rfl := Option.some.inj h; rfl) | cases h

theorem definitionFor_readsBy (word : String) : ReadsBy word (definitionFor word) := by
  unfold definitionFor
  split
  · exact .selections rfl
  · exact .fragment rfl
  · exact .extension rfl
  · split
    next htype => exact .operation (keyword_of_ofKeyword? htype)
    next hrule => exact .typeSystem hrule
    next => exact .nothing

/-- Behind a description stands a definition of the type system, or a fragment. -/
theorem described_spells (h : s.On text) {description second : Lexeme} {head : Head}
    {read : Reading → Reading × Option Head} (hcurrent : s.current? = some description)
    (hdescription : description.kind = .ok .string) (hsecond : s.second? = some second)
    (hread : ReadsBy (String.ofList second.text) read) (hhead : (read s).2 = some head)
    (herrors : (read s).1.errors = []) :
    ∃ tokens, s.Takes tokens (read s).1 ∧ Spells tokens head := by
  have hsignificant := Lexeme.isSignificant_of_kind hdescription
  cases hread with
  | selections | operation =>
    rw [operation, isAt_eq hcurrent hdescription, isAt_eq hcurrent hdescription] at hhead
    cases hhead
  | fragment hword =>
    obtain ⟨name, on, condition, rest, hname, hnamed, hon, hcondition, htakes, rfl⟩ :=
      fragmentDefinition_takes h hcurrent hsignificant hhead herrors
    have hkeyword : second.text = "fragment".toList := by rw [← hword, String.toList_ofList]
    have hbumpErrors : s.bump.errors = [] :=
      (Formed.follow formed_fragmentName formed_fragmentTail).errors_eq_nil herrors
    -- the keyword stands where a name is read
    have hnext := h.current?_bump hcurrent hsignificant hsecond (by simp [hkeyword]) hbumpErrors
    obtain rfl := Option.some.inj (hnext.symm.trans hname)
    rw [hword]
    exact ⟨_, htakes, .describedFragment hdescription ⟨hnamed, hkeyword⟩ hon hcondition⟩
  | extension hword => exact absurd herrors (extension_errors h hsecond hword)
  | @typeSystem rule hrule =>
    obtain rfl := Option.some.inj hhead
    obtain ⟨rest, htakes⟩ := described_takes h hcurrent hdescription hsecond
      (String.toList_ofList).symm hrule herrors
    have hbehind := behindDescription_of_string (second :: rest) hdescription
    exact ⟨_, htakes, .typeSystem hbehind (plain_of_typeSystemDefinition? hrule).2.2⟩
  | nothing => cases hhead

/-- Without a description the first token is the word. -/
theorem undescribed_spells (h : s.On text) {first : Lexeme} {tokens : List Lexeme} {head : Head}
    {read : Reading → Reading × Option Head} (hcurrent : s.current? = some first)
    (hkind : first.kind = .ok .name ∨ first.kind = .ok .leftBrace)
    (hread : ReadsBy (String.ofList first.text) read) (hhead : (read s).2 = some head)
    (htakes : s.Takes (first :: tokens) (read s).1) (herrors : (read s).1.errors = []) :
    ∃ tokens, s.Takes tokens (read s).1 ∧ Spells tokens head := by
  have hbrace (hkind : first.kind = .ok .leftBrace) : first.text = ['\x7b'] := by
    obtain ⟨tail, hform⟩ := h.exists_form (current?_mem hcurrent) hkind (by simp)
    exact hform.leftBrace_text
  have hword {word : String} (heq : String.ofList first.text = word) (hne : word ≠ "\x7b") :
      first.IsWord word := by
    refine ⟨hkind.resolve_right fun hkind => hne ?_, by rw [← heq, String.toList_ofList]⟩
    rw [← heq, hbrace hkind]
  have hundescribed : behindDescription (first :: tokens) = first :: tokens := by
    rcases hkind with hkind | hkind <;> exact behindDescription_of_kind tokens hkind (by simp)
  cases hread with
  | selections htext =>
    have hkind : first.kind = .ok .leftBrace := by
      refine hkind.resolve_left fun hname => ?_
      obtain ⟨tail, hform⟩ := h.exists_form (current?_mem hcurrent) hname (by simp)
      obtain ⟨c, body, hbody, hstart, -⟩ := hform.name_text
      rw [← String.toList_inj, String.toList_ofList, hbody] at htext
      obtain rfl : c = '\x7b' := (List.cons.inj htext).1
      exact absurd hstart (by decide)
    rw [operation, isAt_eq hcurrent hkind, isAt_eq hcurrent hkind] at hhead
    obtain rfl := Option.some.inj hhead
    exact ⟨_, htakes, .selections hkind (hbrace hkind)⟩
  | @operation type htext =>
    exact operation_spells h hcurrent (hword htext (by cases type <;> decide)) hhead herrors
  | fragment htext =>
    have hkeyword := hword htext (by decide)
    obtain ⟨name, on, condition, rest, -, hnamed, hon, hcondition, htakes, rfl⟩ :=
      fragmentDefinition_takes h hcurrent (Lexeme.IsNamed.isSignificant hkeyword.1) hhead herrors
    exact ⟨_, htakes, .fragment hkeyword hnamed hon hcondition⟩
  | extension htext =>
    obtain rfl := Option.some.inj hhead
    exact ⟨_, htakes, .typeSystem hundescribed (htext ▸ by decide)⟩
  | typeSystem hrule =>
    obtain rfl := Option.some.inj hhead
    exact ⟨_, htakes, .typeSystem hundescribed (plain_of_typeSystemDefinition? hrule).2.2⟩
  | nothing => cases hhead

/-- **A definition that is read without errors takes tokens that spell what it was read as.** -/
theorem definition_spells (h : s.On text) {head : Head} {first : Lexeme} {rest : List Lexeme}
    (hhead : (definition s).2 = some head) (hreads : s.Reads (first :: rest) (definition s).1)
    (hopens : first.Opens) (herrors : (definition s).1.errors = []) :
    Spells (significant (first :: rest)) head := by
  obtain ⟨hcurrent, htakes⟩ := takes_of_opens hreads hopens
  suffices hspells : ∃ tokens, s.Takes tokens (definition s).1 ∧ Spells tokens head by
    obtain ⟨tokens, htokens, hspells⟩ := hspells
    rwa [htokens.eq_significant hreads] at hspells
  rcases hopens with hstring | hkind
  · have hat : s.isAt .string = true := isAt_iff.mpr ⟨first, hcurrent, hstring⟩
    cases hsecond : s.second? with
    | none =>
      rw [definition, if_pos hat, hsecond] at hhead
      cases hhead
    | some second =>
      have hread : definition s = definitionFor (String.ofList second.text) s := by
        rw [definition, if_pos hat, hsecond]
      rw [hread] at hhead herrors ⊢
      exact described_spells h hcurrent hstring hsecond (definitionFor_readsBy _) hhead herrors
  · have hread : definition s = definitionFor (String.ofList first.text) s := by
      rw [definition, hcurrent]
      rcases hkind with hkind | hkind <;> simp [isAt_eq hcurrent hkind]
    rw [hread] at hhead herrors htakes ⊢
    exact undescribed_spells h hcurrent hkind (definitionFor_readsBy _) hhead htakes herrors

end Rules
end QueryLocator.Syntax
