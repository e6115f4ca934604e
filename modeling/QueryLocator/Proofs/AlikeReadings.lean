import Mathlib.Data.List.Forall2
import QueryLocator.Proofs.DocumentReading

/-! # Documents that look alike are read alike

Two readings mirror each other when their lexemes, those ahead and those taken, are related one to
one and they have found equally many errors.  If the grammar cannot tell related lexemes apart
(`Alike`), every rule takes mirrored readings to mirrored readings, so the definitions of two
documents whose lexemes are related are related as well (`readDocument_mirrors`).

Offsets do not take part in this: the grammar looks at none.
-/
namespace QueryLocator.Syntax

open Reading Rule

/-- A relation between lexemes that the grammar cannot tell apart.  The texts of names are part of
what a definition defines, so related names are the same. -/
structure Alike (R : Lexeme → Lexeme → Prop) : Prop where
  face : ∀ a b, R a b → a.face = b.face
  name : ∀ a b, R a b → a.kind = .ok .name → b.text = a.text

/-- Two readings whose lexemes are related one to one, with equally many errors. -/
structure Reading.Mirrors (R : Lexeme → Lexeme → Prop) (s t : Reading) : Prop where
  ahead : List.Forall₂ R s.ahead t.ahead
  taken : List.Forall₂ R s.taken t.taken
  errors : s.errors.length = t.errors.length
  silenced : s.silenced = t.silenced

variable {R : Lexeme → Lexeme → Prop} {s t : Reading}

/-- The heads of related lists are related. -/
theorem forall₂_head?_cases {l l' : List Lexeme} (h : List.Forall₂ R l l') :
    (l.head? = none ∧ l'.head? = none) ∨ ∃ a b, l.head? = some a ∧ l'.head? = some b ∧ R a b := by
  cases h with
  | nil => exact Or.inl ⟨rfl, rfl⟩
  | cons hab _ => exact Or.inr ⟨_, _, rfl, rfl, hab⟩

/-! ## Steps -/

theorem Reading.Mirrors.view_eq (h : s.Mirrors R t) (hR : Alike R) : s.view = t.view := by
  have hahead := h.ahead
  unfold Reading.view
  generalize s.ahead = a at hahead
  generalize t.ahead = b at hahead
  induction hahead with
  | nil => rfl
  | cons hab _ ih => rw [List.map_cons, List.map_cons, ih, hR.face _ _ hab]

/-- The current tokens of mirrored readings are related. -/
theorem Reading.Mirrors.current?_cases (h : s.Mirrors R t) :
    (s.current? = none ∧ t.current? = none) ∨
      ∃ a b, s.current? = some a ∧ t.current? = some b ∧ R a b :=
  forall₂_head?_cases h.ahead

theorem passing_mirrors (hR : Alike R) (skipped : TokenKind → Bool) {ahead ahead' : List Lexeme}
    (hahead : List.Forall₂ R ahead ahead') {taken taken' : List Lexeme}
    (htaken : List.Forall₂ R taken taken') {errors errors' : List SyntaxError}
    (herrors : errors.length = errors'.length) (silenced : Bool) :
    (passing skipped taken errors silenced ahead).Mirrors R
      (passing skipped taken' errors' silenced ahead') := by
  induction hahead generalizing taken taken' errors errors' with
  | nil => exact ⟨.nil, htaken, herrors, rfl⟩
  | @cons a b rest rest' hab hrest ih =>
    have hkind : a.kind = b.kind := Lexeme.kind_eq_of_face (hR.face a b hab)
    rw [passing, passing, ← hkind]
    cases a.kind with
    | error fault => exact ih (.cons hab htaken) (by simp [herrors])
    | ok kind =>
      cases hskipped : skipped kind with
      | true => simpa only [hskipped, if_true] using ih (.cons hab htaken) herrors
      | false =>
        simp only [hskipped, Bool.false_eq_true, if_false]
        exact ⟨.cons hab hrest, htaken, herrors, rfl⟩

theorem skip_mirrors (hR : Alike R) (h : s.Mirrors R t) : s.skip.Mirrors R t.skip := by
  unfold Reading.skip
  rw [h.silenced]
  exact passing_mirrors hR _ h.ahead h.taken h.errors _

theorem settle_mirrors (hR : Alike R) (h : s.Mirrors R t) : s.settle.Mirrors R t.settle := by
  unfold Reading.settle
  rw [h.silenced]
  exact passing_mirrors hR _ h.ahead h.taken h.errors _

theorem take_mirrors (h : s.Mirrors R t) : s.take.Mirrors R t.take := by
  obtain ⟨ahead, taken, errors, silenced⟩ := s
  obtain ⟨ahead', taken', errors', silenced'⟩ := t
  obtain ⟨hahead, htaken, herrors, hsilenced⟩ := h
  cases hahead with
  | nil => exact ⟨.nil, htaken, herrors, hsilenced⟩
  | cons hab hrest => exact ⟨hrest, .cons hab htaken, herrors, hsilenced⟩

theorem bump_mirrors (hR : Alike R) (h : s.Mirrors R t) : s.bump.Mirrors R t.bump :=
  skip_mirrors hR (take_mirrors h)

/-- Whatever is reported, and wherever, it counts as one error on both sides. -/
theorem reportAt_mirrors (h : s.Mirrors R t) (offset offset' : Nat) (fault fault' : GrammarFault) :
    (s.reportAt offset fault).Mirrors R (t.reportAt offset' fault') := by
  unfold Reading.reportAt
  rw [← h.silenced]
  split
  · exact h
  · exact ⟨h.ahead, h.taken, by simp [h.errors], rfl⟩

theorem report_mirrors (h : s.Mirrors R t) (fault fault' : GrammarFault) :
    (s.report fault).Mirrors R (t.report fault') := by
  unfold Reading.report
  rcases h.current?_cases with ⟨hs, ht⟩ | ⟨a, b, hs, ht, -⟩
  · rw [hs, ht]
    exact h
  · rw [hs, ht]
    exact reportAt_mirrors h ..

theorem discard_mirrors (hR : Alike R) (h : s.Mirrors R t) (fault : GrammarFault) :
    (Reading.discard fault s).Mirrors R (Reading.discard fault t) := by
  obtain ⟨ahead, taken, errors, silenced⟩ := s
  obtain ⟨ahead', taken', errors', silenced'⟩ := t
  obtain ⟨hahead, htaken, herrors, hsilenced⟩ := h
  cases hahead with
  | nil => exact ⟨.nil, htaken, herrors, hsilenced⟩
  | @cons a b rest rest' _ hrest =>
    have hbehind : Reading.Mirrors R ⟨rest, taken, errors, silenced⟩
        ⟨rest', taken', errors', silenced'⟩ :=
      ⟨hrest, htaken, herrors, hsilenced⟩
    exact settle_mirrors hR (reportAt_mirrors hbehind a.offset b.offset fault fault)

/-- **Every rule takes mirrored readings to mirrored readings.** -/
theorem Rule.Formed.mirrors {rule : Rule} (hrule : Formed rule) (hR : Alike R)
    (h : s.Mirrors R t) : (rule s).Mirrors R (rule t) := by
  induction hrule generalizing s t with
  | pass => exact h
  | bump => exact bump_mirrors hR h
  | skip => exact skip_mirrors hR h
  | report fault => exact report_mirrors h _ _
  | overLimit =>
    have hreport := report_mirrors h .nestingLimit .nestingLimit
    exact ⟨hreport.ahead, hreport.taken, hreport.errors, rfl⟩
  | discard => exact discard_mirrors hR h _
  | follow _ _ ih ih' => exact ih' (ih h)
  | @choose pick _ hseen ih =>
    have hpick : pick s = pick t := hseen s t (h.view_eq hR)
    simp only [hpick]
    exact ih t h

/-! ## What a definition defines -/

theorem nameText?_eq (hR : Alike R) (h : s.Mirrors R t) : nameText? s = nameText? t := by
  have hname : s.isAt .name = t.isAt .name := seen_isAt .name s t (h.view_eq hR)
  unfold nameText? name?
  rw [← hname]
  rcases h.current?_cases with ⟨hs, ht⟩ | ⟨a, b, hs, ht, hab⟩
  · rw [hs, ht]
  · cases hat : s.isAt .name with
    | false => rfl
    | true =>
      obtain ⟨lexeme, hlexeme, hkind⟩ := isAt_iff.mp hat
      obtain rfl : a = lexeme := Option.some.inj (hs.symm.trans hlexeme)
      simp only [if_true, hs, ht, Option.map_some, hR.name a b hab hkind]

theorem operation_head_eq (hR : Alike R) (h : s.Mirrors R t) (type : OperationType) :
    (operation type s).2 = (operation type t).2 := by
  have hview := h.view_eq hR
  unfold operation
  rw [← seen_isAt .name s t hview, ← seen_isAt .leftBrace s t hview]
  split
  · simp only [nameText?_eq hR (bump_mirrors hR h)]
  · split <;> rfl

theorem fragmentDefinition_head_eq (hR : Alike R) (h : s.Mirrors R t) :
    (fragmentDefinition s).2 = (fragmentDefinition t).2 := by
  have hbump := bump_mirrors hR h
  have hon (s t : Reading) (h : s.Mirrors R t) : s.isNamed "on" = t.isNamed "on" :=
    seen_isNamed (by decide) s t (h.view_eq hR)
  have hname := formed_fragmentName.mirrors hR hbump
  have hcondition : (optional (isNamed "on") bump (fragmentName s.bump)).Mirrors R
      (optional (isNamed "on") bump (fragmentName t.bump)) :=
    (Formed.optional (seen_isNamed (by decide)) .bump).mirrors hR hname
  unfold fragmentDefinition conditionText?
  simp only [hon _ _ hbump, nameText?_eq hR hbump, nameText?_eq hR hcondition]

theorem definitionFor_head_eq (hR : Alike R) (h : s.Mirrors R t) (word : String) :
    (definitionFor word s).2 = (definitionFor word t).2 := by
  unfold definitionFor
  split
  · exact operation_head_eq hR h _
  · exact fragmentDefinition_head_eq hR h
  · rfl
  · split
    · exact operation_head_eq hR h _
    · rfl
    · rfl

/-- Mirrored readings have the same definition next. -/
theorem definition_head_eq (hR : Alike R) (h : s.Mirrors R t) :
    (definition s).2 = (definition t).2 := by
  rw [definition_eq, definition_eq, seen_definitionPick s t (h.view_eq hR)]
  unfold definitionPick
  split
  · cases t.second? with
    | some lexeme => exact definitionFor_head_eq hR h _
    | none => rfl
  · split
    · exact definitionFor_head_eq hR h _
    · rfl

/-! ## Whole documents -/

/-- Definitions that define the same and whose lexemes are related one to one. -/
structure DefinitionNode.Mirrors (R : Lexeme → Lexeme → Prop) (m n : DefinitionNode) : Prop where
  head : m.head = n.head
  lexemes : List.Forall₂ R m.lexemes n.lexemes

/-- Mirrored readings have taken mirrored lexemes. -/
theorem takenSince_mirrors {s' t' : Reading} (h : s.Mirrors R t) (h' : s'.Mirrors R t') :
    List.Forall₂ R (takenSince s s') (takenSince t t') := by
  unfold takenSince
  rw [h.taken.length_eq, h'.taken.length_eq]
  exact List.rel_reverse (List.forall₂_take _ h'.taken)

theorem definitions_mirrors (hR : Alike R) (bound : Nat) {found found' : List DefinitionNode}
    (h : s.Mirrors R t) (hfound : List.Forall₂ (DefinitionNode.Mirrors R) found found') :
    (definitions bound s found).1.Mirrors R (definitions bound t found').1 ∧
      List.Forall₂ (DefinitionNode.Mirrors R) (definitions bound s found).2
        (definitions bound t found').2 := by
  induction bound generalizing s t found found' with
  | zero => exact ⟨report_mirrors h _ _, List.rel_reverse hfound⟩
  | succ bound ih =>
    have hview := h.view_eq hR
    have hnext := formed_definition.mirrors hR h
    have hhead := definition_head_eq hR h
    have hempty : s.ahead.isEmpty = t.ahead.isEmpty := seen_isEmpty s t hview
    have hend : s.isAt .endOfText = t.isAt .endOfText := seen_isAt .endOfText s t hview
    rw [definitions, definitions, ← hempty, ← hend]
    split
    · exact ⟨h, List.rel_reverse hfound⟩
    · -- from here on all that matters is that the two results mirror each other
      generalize definition s = first at hnext hhead
      generalize definition t = second at hnext hhead
      obtain ⟨next, head⟩ := first
      obtain ⟨next', head'⟩ := second
      obtain rfl : head = head' := hhead
      cases head with
      | none => exact ih hnext hfound
      | some head => exact ih hnext (.cons ⟨rfl, takenSince_mirrors h hnext⟩ hfound)

/-- **Documents whose lexemes are alike have the same definitions**, and equally many errors. -/
theorem readDocument_mirrors (hR : Alike R) {text text' : List Char}
    (h : List.Forall₂ R (markedLexemes text) (markedLexemes text')) :
    List.Forall₂ (DefinitionNode.Mirrors R) (readDocument text).definitions
        (readDocument text').definitions ∧
      (readDocument text).errors.length = (readDocument text').errors.length := by
  have hstart : Reading.Mirrors R ⟨markedLexemes text, [], [], false⟩
      ⟨markedLexemes text', [], [], false⟩ := ⟨h, .nil, rfl, rfl⟩
  have hskip := skip_mirrors hR hstart
  generalize hs : Reading.skip ⟨markedLexemes text, [], [], false⟩ = s at hskip
  generalize ht : Reading.skip ⟨markedLexemes text', [], [], false⟩ = t at hskip
  have hview := hskip.view_eq hR
  have hempty : s.ahead.isEmpty = t.ahead.isEmpty := seen_isEmpty s t hview
  have hend : s.isAt .endOfText = t.isAt .endOfText := seen_isAt .endOfText s t hview
  have hbegun : (if (s.ahead.isEmpty || s.isAt .endOfText) = true then s.report .emptyDocument
      else s).Mirrors R
      (if (t.ahead.isEmpty || t.isAt .endOfText) = true then t.report .emptyDocument else t) := by
    rw [← hempty, ← hend]
    split
    · exact report_mirrors hskip _ _
    · exact hskip
  unfold readDocument
  simp only [hs, ht]
  generalize (if (s.ahead.isEmpty || s.isAt .endOfText) = true then s.report .emptyDocument
    else s) = begun at hbegun ⊢
  generalize (if (t.ahead.isEmpty || t.isAt .endOfText) = true then t.report .emptyDocument
    else t) = begun' at hbegun ⊢
  obtain ⟨hlast, hnodes⟩ := definitions_mirrors hR (begun.ahead.length + 1) hbegun .nil
  rw [hbegun.ahead.length_eq] at hlast hnodes ⊢
  exact ⟨hnodes, by simp [hlast.errors]⟩

end QueryLocator.Syntax
