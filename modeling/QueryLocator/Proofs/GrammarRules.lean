import QueryLocator.Proofs.RuleForms

/-! # The whole grammar is formed from its steps

One lemma for each rule of the grammar, in the order in which the rules are defined.  A rule that
calls itself takes the number of brackets that may still be opened, so its lemma is an induction on
that number.
-/
namespace QueryLocator.Syntax

open Reading Rule

/-! ## Values, arguments, directives and types -/

theorem formed_name : Formed name :=
  .branch (seen_isAt _) .bump (.fault _)

theorem formed_nameOr (missing : GrammarFault) : Formed (nameOr missing) :=
  .branch (seen_isAt _) formed_name (.fault _)

theorem seen_isLiteralWord : Seen isLiteralWord :=
  seen_or (seen_or (seen_isWord (by decide)) (seen_isWord (by decide))) (seen_isWord (by decide))

theorem formed_enumValue : Formed enumValue :=
  .branch (seen_isAt _)
    (.before (.optional seen_isLiteralWord (.fault _)) (.before formed_name .done)) (.fault _)

theorem formed_variableName : Formed variableName :=
  .before .bump (.before formed_name .done)

theorem formed_onFault (onFault : OnFault) (fault : GrammarFault) : Formed (onFault.rule fault) := by
  cases onFault with
  | take => exact .refuse fault
  | leave => exact .fault fault

theorem formed_listItems {item : Option Rule} (hitem : ∀ rule, item = some rule → Formed rule)
    (bound : Nat) : Formed (listItems item bound) := by
  induction bound with
  | zero => exact .pass
  | succ bound ih =>
    let next : Rule := match item with
      | none => overLimit
      | some item => fun s => listItems (some item) bound (item s)
    have hnext : Formed next := by
      cases item with
      | none => exact .overLimit
      | some rule => exact .follow (hitem rule rfl) ih
    have heq : listItems item (bound + 1) = branch (fun s => s.current?.isNone) id
        (branch (isAt .rightBracket) bump (branch (isAt .endOfText) id next)) := by
      funext s
      cases hcurrent : s.current? <;> cases item <;> simp [listItems, branch, hcurrent, next]
    have hnone : Seen fun s => s.current?.isNone := by
      intro s t h
      obtain ⟨hs, ht⟩ | ⟨a, b, hs, ht, -⟩ := current?_cases h <;> simp [hs, ht]
    rw [heq]
    exact .branch hnone .pass (.branch (seen_isAt _) .bump (.branch (seen_isAt _) .pass hnext))

theorem formed_listWith {item : Option Rule} (hitem : ∀ rule, item = some rule → Formed rule) :
    Formed (listWith item) := by
  have hitems : Formed fun s => listItems item (s.ahead.length + 1) s :=
    @Formed.look Nat _ (fun n => listItems item (n + 1)) seen_ahead_length
      fun n => formed_listItems hitem (n + 1)
  exact @Formed.follow bump _ .bump hitems

theorem formed_objectFieldWith {item : Option Rule} (hitem : ∀ rule, item = some rule → Formed rule) :
    Formed (objectFieldWith item) := by
  have hvalue : Formed (item.getD overLimit) := by
    cases item with
    | none => exact .overLimit
    | some rule => exact hitem rule rfl
  exact .before formed_name
    (.before (.optional (seen_isAt _) (.before .bump (.before hvalue .done))) .done)

theorem formed_objectWith {item : Option Rule} (hitem : ∀ rule, item = some rule → Formed rule) :
    Formed (objectWith item) :=
  .before .bump
    (.before (.whileAt (seen_isAt _) (formed_objectFieldWith hitem)) (.before (.expect _) .done))

theorem formed_value (constant : Bool) (onFault : OnFault) (depth : Nat) :
    Formed (value constant onFault depth) := by
  have form (onFault : OnFault) (inner : Option Rule)
      (hinner : ∀ rule, inner = some rule → Formed rule) : Formed (
      branch (isAt .dollar)
        (seq [if constant then onFault.rule .variableInConstant else id, variableName]) <|
      branch (fun s => s.isAt .int || s.isAt .float || s.isAt .string) bump <|
      branch (isAt .name) (branch isLiteralWord bump enumValue) <|
      branch (isAt .leftBracket) (listWith inner) <|
      branch (isAt .leftBrace) (objectWith inner) (onFault.rule (.expected "a valid Value"))) := by
    have hvariable : Formed (if constant then onFault.rule .variableInConstant else id) := by
      cases constant
      · exact .pass
      · exact formed_onFault ..
    exact .branch (seen_isAt _) (.before hvariable (.before formed_variableName .done))
      (.branch (seen_or (seen_or (seen_isAt _) (seen_isAt _)) (seen_isAt _)) .bump
        (.branch (seen_isAt _) (.branch seen_isLiteralWord .bump formed_enumValue)
          (.branch (seen_isAt _) (formed_listWith hinner)
            (.branch (seen_isAt _) (formed_objectWith hinner) (formed_onFault ..)))))
  induction depth generalizing onFault with
  | zero => exact form onFault none (by simp)
  | succ depth ih =>
    refine form onFault (some (value constant .take depth)) ?_
    rintro rule ⟨⟩
    exact ih .take

theorem formed_argument (constant : Bool) (depth : Nat) : Formed (argument constant depth) :=
  .before formed_name (.before
    (.optional (seen_isAt _) (.before .bump (.before (formed_value ..) .done))) .done)

theorem formed_arguments (constant : Bool) (depth : Nat) : Formed (arguments constant depth) :=
  .before .bump (.before (.oneOrMore (seen_isAt _) (formed_argument ..) _)
    (.before (.expect _) .done))

theorem formed_directive (constant : Bool) (depth : Nat) : Formed (directive constant depth) :=
  .before (.expect _) (.before formed_name
    (.before (.optional (seen_isAt _) (formed_arguments ..)) .done))

theorem formed_directives (constant : Bool) (depth : Nat) : Formed (directives constant depth) :=
  .whileAt (seen_isAt _) (formed_directive ..)

theorem seen_isAtType : Seen isAtType :=
  seen_or (seen_isAt _) (seen_isAt _)

/-- An exclamation mark is taken, and trivia is passed whether or not there was one. -/
theorem nonNull_eq (s : Reading) : nonNull s = branch (isAt .bang) bump skip s.skip := by
  simp only [nonNull, seq, List.foldl_cons, List.foldl_nil, Rule.optional, Rule.branch]
  split <;> rfl

theorem formed_nonNull : Formed nonNull := by
  rw [funext nonNull_eq]
  exact .follow .skip (.branch (seen_isAt _) .bump .skip)

/-- The first token of a type is taken, and then what may stand behind the type. -/
theorem formed_take_nonNull : Formed (seq [take, nonNull]) := by
  have heq : seq [take, nonNull] = fun s => branch (isAt .bang) bump skip (bump s) := by
    funext s
    exact nonNull_eq s.take
  rw [heq]
  exact .follow .bump (.branch (seen_isAt _) .bump .skip)

theorem formed_listTypeWith {item : Rule} (hitem : Formed item) : Formed (listTypeWith item) := by
  have heq : listTypeWith item =
      seq [bump, branch isAtType item (Reading.discard (.expected "item type")),
        expect .rightBracket] := by
    funext s
    simp only [listTypeWith, seq, List.foldl_cons, List.foldl_nil, Rule.branch]
    split <;> rfl
  rw [heq]
  exact .before .bump (.before (.branch seen_isAtType hitem .discard) (.before (.expect _) .done))

theorem formed_typeReference (depth : Nat) : Formed (typeReference depth) := by
  induction depth with
  | zero =>
    exact .branch (seen_isAt _) (.before .bump (.before .overLimit .done)) formed_take_nonNull
  | succ depth ih =>
    exact .branch (seen_isAt _)
      (.before (formed_listTypeWith ih) (.before formed_nonNull .done)) formed_take_nonNull

theorem formed_typeWithDefault (depth : Nat) : Formed (typeWithDefault depth) := by
  have hdefault : Formed (defaultValue depth) := .before .bump (.before (formed_value ..) .done)
  exact .branch seen_isAtType
    (.before (formed_typeReference depth) (.before (.optional (seen_isAt _) hdefault)
      (.before (formed_directives ..) .done))) (.fault _)

/-! ## Selections -/

theorem formed_fragmentName : Formed fragmentName :=
  .branch (seen_isNamed (by decide)) (.fault _) (formed_nameOr _)

theorem formed_typeCondition : Formed typeCondition :=
  .before (.branch (seen_isNamed (by decide)) .bump (.fault _)) (.before (formed_nameOr _) .done)

theorem seen_isSpread : Seen isSpread := by
  intro s t h
  unfold isSpread
  obtain ⟨hs, ht⟩ | ⟨⟨ka, ta, _⟩, ⟨kb, tb, _⟩, hs, ht, hface⟩ := second?_cases h
  · rw [hs, ht]
  · have hword := Lexeme.text_beq_of_face hface (show ['o', 'n'].any endsLine = false by decide)
    obtain rfl : ka = kb := Lexeme.kind_eq_of_face hface
    rw [hs, ht]
    cases ka with
    | error => rfl
    | ok kind => cases kind <;> simp_all [bne]

theorem seen_isInlineFragment : Seen isInlineFragment :=
  seen_or (seen_or (seen_secondIs _) (seen_secondIs _)) (seen_secondIs _)

theorem formed_selectionWith {selections : Rule} (h : Formed selections) (depth : Nat) :
    Formed (selectionWith selections depth) := by
  have hdirectives : Formed (optional (isAt .atSign) (directives false depth)) :=
    .optional (seen_isAt _) (formed_directives ..)
  have hfield : Formed (fieldWith selections depth) :=
    .before (.optional (seen_secondIs _) (.before formed_name (.before .bump .done)))
      (.before formed_name (.before (.optional (seen_isAt _) (formed_arguments ..))
        (.before hdirectives (.before (.optional (seen_isAt _) h) .done))))
  have hspread : Formed (fragmentSpread depth) :=
    .before .bump (.before (.branch (seen_isAt _) formed_fragmentName (.fault _))
      (.before hdirectives .done))
  have hinline : Formed (inlineFragmentWith selections depth) :=
    .before .bump (.before (.optional (seen_isAt _) formed_typeCondition)
      (.before hdirectives (.before (.branch (seen_isAt _) h (.fault _)) .done)))
  exact .branch (seen_isAt _) hfield (.branch seen_isSpread hspread
    (.branch seen_isInlineFragment hinline (.before (.fault _) (.before .bump .done))))

theorem formed_selectionSet (depth : Nat) : Formed (selectionSet depth) := by
  induction depth with
  | zero => exact .before .bump (.before .overLimit .done)
  | succ depth ih =>
    exact .before .bump
      (.before (.oneOrMore (seen_or (seen_isAt _) (seen_isAt _)) (formed_selectionWith ih depth) _)
        (.before (.expect _) .done))

/-! ## Definitions and extensions of the type system -/

theorem formed_opening {keyword : String} (hword : keyword.toList.any endsLine = false) :
    Formed (opening keyword) :=
  .before (.optional (seen_isAt _) .bump)
    (.before (.optional (seen_isWord hword) .bump) .done)

theorem formed_description : Formed description :=
  .optional (seen_isAt _) .bump

theorem seen_isAtMember : Seen isAtMember :=
  seen_or (seen_isAt _) (seen_isAt _)

theorem formed_constantDirectives : Formed constantDirectives :=
  formed_directives ..

theorem formed_inputValue : Formed inputValue :=
  .before formed_description (.before formed_name (.before
    (.branch (seen_isAt _) (.before .bump (.before (formed_typeWithDefault _) .done)) (.fault _))
    .done))

theorem formed_members {member : Rule} (hmember : Formed member) (what : String)
    (closing : TokenKind) : Formed (members member what closing) :=
  .before .bump (.before (.oneOrMore seen_isAtMember hmember _) (.before (.expect _) .done))

theorem formed_argumentDefinitions : Formed argumentDefinitions :=
  formed_members formed_inputValue ..

theorem formed_fieldDefinition : Formed fieldDefinition := by
  have htype : Formed (seq [typeReference nestingLimit, constantDirectives]) :=
    .before (formed_typeReference _) (.before formed_constantDirectives .done)
  exact .before formed_description (.before formed_name
    (.before (.optional (seen_isAt _) formed_argumentDefinitions) (.before
      (.branch (seen_isAt _) (.before .bump (.before (.branch seen_isAtType htype (.fault _)) .done))
        (.fault _)) .done)))

theorem formed_enumValueDefinition : Formed enumValueDefinition :=
  .before formed_description (.before formed_enumValue (.before formed_constantDirectives .done))

theorem formed_implementedInterfaces : Formed implementedInterfaces :=
  .before .bump (.before (.separated _ (formed_nameOr _)) .done)

theorem formed_unionMembers : Formed unionMembers :=
  .before .bump (.before (.separated _ (formed_nameOr _)) .done)

theorem formed_directiveLocation : Formed directiveLocation := by
  have hwords : ∀ words : List String, (∀ w ∈ words, w.toList.any endsLine = false) →
      Seen fun s => words.any s.isWord := by
    intro words hwords
    induction words with
    | nil => exact fun _ _ _ => rfl
    | cons w words ih =>
      exact seen_or (seen_isWord (hwords w (List.mem_cons_self ..)))
        (ih fun v hv => hwords v (List.mem_cons_of_mem w hv))
  exact .branch (seen_isAt _) (.branch (hwords _ (by decide)) .bump (.fault _)) (.fault _)

/-- What follows the keyword of the definition of a directive. -/
def directiveBody : Rule :=
  seq [
    branch (isAt .atSign) bump (report (.expected "@ symbol")),
    name,
    optional (isAt .leftParen) argumentDefinitions,
    optional (isWord "repeatable") bump,
    branch (isWord "on") bump (report (.expected "Directive Locations")),
    branch (fun s => s.isAt .name || s.isAt .bar) (separated .bar directiveLocation)
      (report (.expected "valid Directive Location"))]

theorem formed_directiveBody : Formed directiveBody :=
  .before (.branch (seen_isAt _) .bump (.fault _))
    (.before formed_name (.before (.optional (seen_isAt _) formed_argumentDefinitions)
      (.before (.optional (seen_isWord (by decide)) .bump)
        (.before (.branch (seen_isWord (by decide)) .bump (.fault _))
          (.before (.branch (seen_or (seen_isAt _) (seen_isAt _))
            (.separated _ formed_directiveLocation) (.fault _)) .done)))))

/-- The parts that may follow the name of a definition are looked for and read by the grammar. -/
def Parts.Formed (parts : Parts) : Prop :=
  ∀ part ∈ parts, Seen part.1 ∧ Rule.Formed part.2

theorem formed_scalarParts : Parts.Formed scalarParts := by
  simp [Parts.Formed, scalarParts, seen_isAt, formed_constantDirectives]

theorem formed_fieldedParts : Parts.Formed fieldedParts := by
  have hfields : Formed fieldDefinitions := formed_members formed_fieldDefinition ..
  have himplements : Seen (isNamed "implements") := seen_isNamed (by decide)
  simp [Parts.Formed, fieldedParts, seen_isAt, formed_constantDirectives, hfields, himplements,
    formed_implementedInterfaces]

theorem formed_unionParts : Parts.Formed unionParts := by
  simp [Parts.Formed, unionParts, seen_isAt, formed_constantDirectives, formed_unionMembers]

theorem formed_enumParts : Parts.Formed enumParts := by
  have hvalues : Formed enumValueDefinitions := formed_members formed_enumValueDefinition ..
  simp [Parts.Formed, enumParts, seen_isAt, formed_constantDirectives, hvalues]

theorem formed_inputParts : Parts.Formed inputParts := by
  have hfields : Formed inputFields := formed_members formed_inputValue ..
  simp [Parts.Formed, inputParts, seen_isAt, formed_constantDirectives, hfields]

/-- What follows the keyword of a definition: a name, and parts that may be left out. -/
def namedBody (missingName : String) (parts : Parts) : Rule :=
  seq (nameOr (.expected missingName) :: parts.map fun (test, rule) => optional test rule)

theorem formed_namedBody (missing : String) {parts : Parts} (hparts : parts.Formed) :
    Formed (namedBody missing parts) := by
  refine .before (formed_nameOr _) (.seq ?_)
  intro rule hrule
  obtain ⟨part, hpart, rfl⟩ := List.mem_map.mp hrule
  exact .optional (hparts part hpart).1 (hparts part hpart).2

theorem formed_namedExtension {parts : Parts} (hparts : parts.Formed) (missing : GrammarFault) :
    Formed (namedExtension parts missing) :=
  .before .bump (.before .bump (.before formed_name (.before (.someOf hparts _) .done)))

theorem formed_rootOperation : Formed rootOperation := by
  have htype : Formed rootOperationType :=
    .branch (seen_or (seen_or (seen_isWord (by decide)) (seen_isWord (by decide)))
      (seen_isWord (by decide))) .bump (.refuse _)
  exact .before htype (.before (.branch (seen_isAt _)
    (.before .bump (.before (.optional (seen_isAt _) formed_name) .done)) (.fault _)) .done)

/-- What follows the keyword of the definition of a schema. -/
def schemaBody : Rule :=
  seq [
    constantDirectives,
    optional (isAt .leftBrace)
      (seq [bump,
        oneOrMore (isAt .name) rootOperation
          (.expected "Root Operation Type Definition"),
        expect .rightBrace])]

theorem formed_schemaBody : Formed schemaBody :=
  .before formed_constantDirectives
    (.before (.optional (seen_isAt _) (.before .bump
      (.before (.oneOrMore (seen_isAt _) formed_rootOperation _) (.before (.expect _) .done)))) .done)

/-- Whether the extension of a schema brings anything is looked at on the way. -/
theorem formed_schemaExtension : Formed schemaExtension := by
  let missing : GrammarFault := .expected "directives or Root Operation Type Definition"
  let complain (brought : Bool) : Rule := if brought then id else report missing
  have hcomplain (brought : Bool) : Formed (complain brought) := by
    cases brought
    · exact .fault missing
    · exact .pass
  let operations : Rule := fun s => expect .rightBrace (whileAt (isAt .name) rootOperation s)
  have hoperations : Formed operations :=
    .follow (.whileAt (seen_isAt _) formed_rootOperation) (.expect _)
  let inBraces (directed : Bool) : Rule := fun s =>
    complain (directed || s.isAt .name) (operations s)
  have hinBraces (directed : Bool) : Formed (inBraces directed) :=
    @Formed.look Bool _ (fun named s => complain (directed || named) (operations s)) (seen_isAt .name)
      fun named => .follow hoperations (hcomplain _)
  let body (directed : Bool) : Rule :=
    branch (isAt .leftBrace) (fun s => inBraces directed s.bump) (complain directed)
  have hbody (directed : Bool) : Formed (body directed) :=
    .branch (seen_isAt _) (@Formed.follow bump _ .bump (hinBraces directed)) (hcomplain directed)
  let extended : Rule := fun s => body (s.isAt .atSign) (constantDirectives s)
  have hextended : Formed extended :=
    @Formed.look Bool _ (fun directed s => body directed (constantDirectives s)) (seen_isAt .atSign)
      fun directed => .follow formed_constantDirectives (hbody directed)
  have heq : schemaExtension = fun s => extended s.bump.bump := by
    funext s
    simp only [schemaExtension, extended, body, inBraces, complain, operations, Rule.branch]
    split <;> simp <;> split <;> rfl
  rw [heq]
  exact @Formed.follow (fun s => s.bump.bump) extended (.follow .bump .bump) hextended

/-- What defines a part of the type system begins with its keyword, behind a description if there is
one. -/
theorem exists_body_of_typeSystemDefinition? {word : String} {rule : Rule}
    (h : typeSystemDefinition? word = some rule) :
    ∃ body, Formed body ∧ ∀ s, rule s = body (opening word s) := by
  unfold typeSystemDefinition? at h
  split at h
  all_goals first | (obtain rfl := Option.some.inj h) | simp at h
  · exact ⟨directiveBody, formed_directiveBody, fun _ => rfl⟩
  · exact ⟨schemaBody, formed_schemaBody, fun _ => rfl⟩
  · exact ⟨namedBody "a Name" scalarParts, formed_namedBody _ formed_scalarParts, fun _ => rfl⟩
  · exact ⟨namedBody "a name" fieldedParts, formed_namedBody _ formed_fieldedParts, fun _ => rfl⟩
  · exact ⟨namedBody "a Name" fieldedParts, formed_namedBody _ formed_fieldedParts, fun _ => rfl⟩
  · exact ⟨namedBody "a Name" unionParts, formed_namedBody _ formed_unionParts, fun _ => rfl⟩
  · exact ⟨namedBody "a Name" enumParts, formed_namedBody _ formed_enumParts, fun _ => rfl⟩
  · exact ⟨namedBody "a Name" inputParts, formed_namedBody _ formed_inputParts, fun _ => rfl⟩

/-- A keyword of the type system stands on one line. -/
theorem endsLine_of_typeSystemDefinition? {word : String} {rule : Rule}
    (h : typeSystemDefinition? word = some rule) : word.toList.any endsLine = false := by
  unfold typeSystemDefinition? at h
  split at h <;> first | decide | simp at h

theorem formed_typeSystemDefinition? {word : String} {rule : Rule}
    (h : typeSystemDefinition? word = some rule) : Formed rule := by
  obtain ⟨body, hbody, heq⟩ := exists_body_of_typeSystemDefinition? h
  rw [funext heq]
  exact .follow (formed_opening (endsLine_of_typeSystemDefinition? h)) hbody

theorem formed_extension? {word : String} {rule : Rule} (h : extension? word = some rule) :
    Formed rule := by
  unfold extension? at h
  split at h
  all_goals first | (obtain rfl := Option.some.inj h) | simp at h
  · exact formed_schemaExtension
  · exact formed_namedExtension formed_scalarParts _
  · exact formed_namedExtension formed_fieldedParts _
  · exact formed_namedExtension formed_fieldedParts _
  · exact formed_namedExtension formed_unionParts _
  · exact formed_namedExtension formed_enumParts _
  · exact formed_namedExtension formed_inputParts _

/-! ## Keywords stand on one line -/

/-- No extension is introduced by a word with a line end inside. -/
theorem extension?_of_endsLine {word : String} (h : word.toList.any endsLine = true) :
    extension? word = none := by
  unfold extension?
  split <;> first | rfl | exact absurd h (by decide)

theorem typeSystemDefinition?_of_endsLine {word : String} (h : word.toList.any endsLine = true) :
    typeSystemDefinition? word = none := by
  cases hrule : typeSystemDefinition? word with
  | none => rfl
  | some rule => simp [endsLine_of_typeSystemDefinition? hrule] at h

theorem ofKeyword?_of_endsLine {word : String} (h : word.toList.any endsLine = true) :
    OperationType.ofKeyword? word = none := by
  unfold OperationType.ofKeyword?
  split <;> first | rfl | exact absurd h (by decide)

/-- A word with a line end inside introduces no definition. -/
theorem definitionFor_of_endsLine {word : String} (h : word.toList.any endsLine = true)
    (s : Reading) : definitionFor word s = (s.refuse (.expected "definition"), none) := by
  unfold definitionFor
  split
  · exact absurd h (by decide)
  · exact absurd h (by decide)
  · exact absurd h (by decide)
  · rw [ofKeyword?_of_endsLine h, typeSystemDefinition?_of_endsLine h]

/-- What depends on a word, and treats all words with a line end inside alike, depends on the face of
a lexeme only. -/
theorem eq_of_face {α : Type} {f : String → α} {other : α}
    (hf : ∀ word : String, word.toList.any endsLine = true → f word = other) {a b : Lexeme}
    (h : a.face = b.face) : f (String.ofList a.text) = f (String.ofList b.text) := by
  rcases Lexeme.text_eq_of_face h with htext | ⟨ha, hb⟩
  · rw [htext]
  · rw [hf _ (by simpa using ha), hf _ (by simpa using hb)]

/-! ## Definitions -/

/-- The rule for the extension that begins with the current token depends on the word behind it. -/
def extensionPick (s : Reading) : Rule :=
  match (s.second?.map fun lexeme => String.ofList lexeme.text).bind extension? with
  | some rule => rule
  | none => refuse .unsuitableExtension

theorem typeSystemExtension_eq (s : Reading) : typeSystemExtension s = extensionPick s s := by
  unfold typeSystemExtension extensionPick
  generalize (s.second?.map fun lexeme => String.ofList lexeme.text).bind extension? = found
  cases found <;> rfl

theorem formed_typeSystemExtension : Formed typeSystemExtension := by
  have hpick : Seen extensionPick := by
    intro s t h
    obtain ⟨hs, ht⟩ | ⟨a, b, hs, ht, hface⟩ := second?_cases h
    · simp only [extensionPick, hs, ht]
    · have hword := eq_of_face (fun _ h => extension?_of_endsLine h) hface
      simp only [extensionPick, hs, ht, Option.map_some, Option.bind_some, hword]
  have hform (s : Reading) : Formed (extensionPick s) := by
    unfold extensionPick
    split
    · rename_i rule hrule
      obtain ⟨word, -, hword⟩ := Option.bind_eq_some_iff.mp hrule
      exact formed_extension? hword
    · exact .refuse _
  have heq : typeSystemExtension = fun s => extensionPick s s := funext typeSystemExtension_eq
  rw [heq]
  exact .choose hform hpick

/-- What follows the name of an operation, or its keyword if there is none. -/
def operationBody : Rule :=
  seq [
    optional (isAt .leftParen) variableDefinitions,
    optional (isAt .atSign) (directives false nestingLimit),
    branch (isAt .leftBrace) (selectionSet nestingLimit)
      (refuse (.expected "a Selection Set"))]

theorem operationTail_eq (s : Reading) :
    operationTail s = operationBody (optional (isAt .name) name s) := rfl

theorem formed_operationBody : Formed operationBody := by
  have hvariable : Formed variableDefinition :=
    .before formed_variableName (.before
      (.branch (seen_isAt _) (.before .bump (.before (formed_typeWithDefault _) .done)) (.fault _))
      .done)
  have hvariables : Formed variableDefinitions :=
    .before .bump (.before (.oneOrMore (seen_isAt _) hvariable _) (.before (.expect _) .done))
  exact .before (.optional (seen_isAt _) hvariables) (.before
    (.optional (seen_isAt _) (formed_directives ..)) (.before
      (.branch (seen_isAt _) (formed_selectionSet _) (.refuse _)) .done))

theorem formed_operationTail : Formed operationTail :=
  @Formed.follow _ operationBody (.optional (seen_isAt _) formed_name) formed_operationBody

/-- What follows the type condition of a fragment. -/
def fragmentBody : Rule :=
  seq [
    optional (isAt .atSign) (directives false nestingLimit),
    branch (isAt .leftBrace) (selectionSet nestingLimit)
      (report (.expected "a Selection Set"))]

theorem formed_fragmentBody : Formed fragmentBody :=
  .before (.optional (seen_isAt _) (formed_directives ..)) (.before
    (.branch (seen_isAt _) (formed_selectionSet _) (.fault _)) .done)

theorem formed_fragmentTail : Formed fragmentTail :=
  @Formed.follow typeCondition fragmentBody formed_typeCondition formed_fragmentBody

theorem formed_operation (type : OperationType) : Formed fun s => (operation type s).1 := by
  have heq : (fun s => (operation type s).1) = branch (isAt .name) (fun s => operationTail s.bump)
      (branch (isAt .leftBrace) (selectionSet nestingLimit)
        (refuse (.expected "an Operation Type or a Selection Set"))) := by
    funext s
    simp only [operation, Rule.branch]
    split
    · rfl
    · split <;> rfl
  rw [heq]
  exact .branch (seen_isAt _) (.follow .bump formed_operationTail)
    (.branch (seen_isAt _) (formed_selectionSet _) (.refuse _))

theorem formed_fragmentDefinition : Formed fun s => (fragmentDefinition s).1 :=
  @Formed.follow (fun s => fragmentName s.bump) fragmentTail
    (@Formed.follow bump fragmentName .bump formed_fragmentName) formed_fragmentTail

theorem formed_definitionFor (word : String) : Formed fun s => (definitionFor word s).1 := by
  unfold definitionFor
  split
  · exact formed_operation .query
  · exact formed_fragmentDefinition
  · exact formed_typeSystemExtension
  · split
    · exact formed_operation _
    · rename_i rule _ hrule
      exact formed_typeSystemDefinition? hrule
    · exact .refuse _

/-- The rule for the definition that begins with the current token depends on what is seen of the
reading. -/
def definitionPick (s : Reading) : Reading → Reading × Option Head :=
  if s.isAt .string then
    match s.second? with
    | some lexeme => definitionFor (String.ofList lexeme.text)
    | none => fun s => (s.refuse (.expected "a definition after this StringValue"), none)
  else if s.isAt .name || s.isAt .leftBrace then
    definitionFor (String.ofList ((s.current?.map Lexeme.text).getD []))
  else
    fun s => (s.refuse (.expected "a StringValue, Name or OperationDefinition"), none)

theorem definition_eq (s : Reading) : definition s = definitionPick s s := by
  unfold definition definitionPick
  split
  · cases s.second? <;> rfl
  · split <;> rfl

theorem seen_definitionPick : Seen definitionPick := by
  intro s t h
  have hword {a b : Lexeme} (hface : a.face = b.face) :
      definitionFor (String.ofList a.text) = definitionFor (String.ofList b.text) :=
    eq_of_face (fun _ h => funext (definitionFor_of_endsLine h)) hface
  have hnamed := seen_or (seen_isAt .name) (seen_isAt .leftBrace) s t h
  simp only at hnamed
  simp only [definitionPick, seen_isAt .string s t h, hnamed]
  split
  · obtain ⟨hs, ht⟩ | ⟨a, b, hs, ht, hface⟩ := second?_cases h
    · rw [hs, ht]
    · rw [hs, ht]
      exact hword hface
  · obtain ⟨hs, ht⟩ | ⟨a, b, hs, ht, hface⟩ := current?_cases h
    · rw [hs, ht]
    · simp only [hs, ht, Option.map_some, Option.getD_some, hword hface]

theorem formed_definition : Formed fun s => (definition s).1 := by
  have heq : (fun s => (definition s).1) = fun s => (fun s' => (definitionPick s s').1) s := by
    funext s
    rw [definition_eq]
  rw [heq]
  refine @Formed.choose (fun s s' => (definitionPick s s').1) (fun s => ?_) ?_
  · unfold definitionPick
    split
    · cases s.second? with
      | some lexeme => exact formed_definitionFor _
      | none => exact .refuse _
    · split
      · exact formed_definitionFor _
      · exact .refuse _
  · intro s t h
    simp only [seen_definitionPick s t h]

/-! ## Whole documents -/

section Documents
variable {P : Reading → Prop} (hkeep : ∀ rule, Formed rule → ∀ s, P s → P (rule s))
include hkeep

/-- What every rule keeps is kept when all definitions are read. -/
theorem definitions_invariant (bound : Nat) {s : Reading} (hs : P s) (found : List DefinitionNode) :
    P (definitions bound s found).1 := by
  induction bound generalizing s found with
  | zero => exact hkeep _ (.fault _) s hs
  | succ bound ih =>
    unfold definitions
    split
    · exact hs
    · have hstep := hkeep _ formed_definition s hs
      split <;> rename_i hdefinition <;> rw [hdefinition] at hstep <;> exact ih hstep _

/-- **What every rule keeps holds at the end of a document** if it holds where the first token is
current. -/
theorem readDocument_invariant {text : List Char}
    (hfirst : P (skip ⟨markedLexemes text, [], [], false⟩)) :
    ∃ s, P s ∧ (readDocument text).texts = (s.taken.reverse ++ s.ahead).map Lexeme.text ∧
      (readDocument text).errors = s.errors.reverse := by
  let refuseEmpty : Rule := branch (fun s => s.ahead.isEmpty || s.isAt .endOfText)
    (report .emptyDocument) id
  have hrefuse : Formed refuseEmpty :=
    .branch (seen_or seen_isEmpty (seen_isAt .endOfText)) (.fault .emptyDocument) .pass
  let begun := refuseEmpty (skip ⟨markedLexemes text, [], [], false⟩)
  have hbegun : P begun := hkeep refuseEmpty hrefuse _ hfirst
  exact ⟨(definitions (begun.ahead.length + 1) begun []).1,
    definitions_invariant hkeep _ hbegun [], rfl, rfl⟩

end Documents

end QueryLocator.Syntax
