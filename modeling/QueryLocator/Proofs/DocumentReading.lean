import QueryLocator.Proofs.ErrorFreeReading
import QueryLocator.Proofs.GrammarRules
import QueryLocator.Proofs.LexemeRuns

/-! # A document that is read without errors

The lexemes of such a document are the trivia in front of it, then the lexemes of its definitions one
definition after another, then at most the mark of its end (`readDocument_layout`).  Each definition
begins with a string, a name or an opening brace.

That a definition takes a token at all need not be read off the grammar.  A definition that takes
none leaves the reading as it was, so the next one takes none either; when the bound on the number of
definitions is reached an error is reported, which the document does not have.
-/
namespace QueryLocator.Syntax

open Text Reading Rule

theorem isAt_iff {kind : TokenKind} {s : Reading} :
    s.isAt kind = true ↔ ∃ lexeme, s.current? = some lexeme ∧ lexeme.kind = .ok kind := by
  unfold isAt
  constructor
  · intro h
    split at h
    · rename_i found text offset hcurrent
      exact ⟨_, hcurrent, by simpa using h⟩
    · simp at h
  · rintro ⟨⟨_, text, offset⟩, hcurrent, rfl⟩
    simp [hcurrent]

/-- A lexeme with which definitions begin. -/
def Lexeme.Opens (lexeme : Lexeme) : Prop :=
  lexeme.kind = .ok .string ∨ lexeme.kind = .ok .name ∨ lexeme.kind = .ok .leftBrace

/-! ## One definition -/

/-- What begins no definition is refused. -/
theorem definition_none {s : Reading} (h : (definition s).2 = none) :
    ∃ fault, (definition s).1 = s.refuse fault := by
  have hoperation (type : OperationType) (h : (operation type s).2 = none) :
      ∃ fault, (operation type s).1 = s.refuse fault := by
    unfold operation at h ⊢
    split at h
    · simp at h
    · split at h
      · simp at h
      · rename_i hname hbrace
        exact ⟨_, by rw [if_neg hname, if_neg hbrace]⟩
  have hfor (word : String) (h : (definitionFor word s).2 = none) :
      ∃ fault, (definitionFor word s).1 = s.refuse fault := by
    unfold definitionFor at h ⊢
    split at h
    · exact hoperation .query h
    · simp [fragmentDefinition] at h
    · simp at h
    · split at h
      · exact hoperation _ h
      · simp at h
      · exact ⟨_, rfl⟩
  rw [definition_eq] at h ⊢
  unfold definitionPick at h ⊢
  by_cases hstring : s.isAt .string = true
  · rw [if_pos hstring] at h ⊢
    cases hsecond : s.second? with
    | some lexeme =>
      rw [hsecond] at h
      exact hfor _ h
    | none => exact ⟨_, rfl⟩
  · rw [if_neg hstring] at h ⊢
    by_cases hname : (s.isAt .name || s.isAt .leftBrace) = true
    · rw [if_pos hname] at h ⊢
      exact hfor _ h
    · rw [if_neg hname]
      exact ⟨_, rfl⟩

/-- A definition begins with a string, a name or an opening brace. -/
theorem definition_some {s : Reading} {head : Head} (h : (definition s).2 = some head) :
    ∃ lexeme, s.current? = some lexeme ∧ lexeme.Opens := by
  rw [definition_eq] at h
  unfold definitionPick at h
  by_cases hstring : s.isAt .string = true
  · obtain ⟨lexeme, hcurrent, hkind⟩ := isAt_iff.mp hstring
    exact ⟨lexeme, hcurrent, Or.inl hkind⟩
  · rw [if_neg hstring] at h
    by_cases hname : (s.isAt .name || s.isAt .leftBrace) = true
    · rcases Bool.or_eq_true_iff.mp hname with hname | hbrace
      · obtain ⟨lexeme, hcurrent, hkind⟩ := isAt_iff.mp hname
        exact ⟨lexeme, hcurrent, Or.inr (Or.inl hkind)⟩
      · obtain ⟨lexeme, hcurrent, hkind⟩ := isAt_iff.mp hbrace
        exact ⟨lexeme, hcurrent, Or.inr (Or.inr hkind)⟩
    · rw [if_neg hname] at h
      simp at h

theorem Reading.Ready.refuse_errors {s : Reading} (hs : s.Ready) (hahead : s.ahead ≠ [])
    (fault : GrammarFault) : (s.refuse fault).errors ≠ [] := by
  intro h
  have hreport : (s.report fault).errors = [] := Formed.errors_eq_nil .bump h
  exact hahead (hs.report_eq_self hreport).2

/-- Where nothing was taken and no error was found nothing has changed. -/
theorem Reading.Ready.eq_of_reads_nil {s t : Reading} (hs : s.Ready) (ht : t.Ready)
    (hreads : s.Reads [] t) (hserrors : s.errors = []) (hterrors : t.errors = [])
    (hahead : s.ahead ≠ []) : t = s := by
  have hsilent {r : Reading} (hr : r.Ready) (hne : r.ahead ≠ []) : r.silenced = false :=
    Bool.eq_false_iff.mpr fun hsilent => hne (hr.attentive hsilent)
  have hsame : s.ahead = t.ahead := hreads.ahead
  have htaken : t.taken = s.taken := hreads.taken
  have hquiet : t.silenced = s.silenced := by
    rw [hsilent hs hahead, hsilent ht (hsame ▸ hahead)]
  obtain ⟨ahead, taken, errors, silenced⟩ := s
  obtain ⟨ahead', taken', errors', silenced'⟩ := t
  simp only at hsame htaken hquiet hserrors hterrors
  rw [hsame, htaken, hquiet, hserrors, hterrors]

theorem takenSince_eq {s t : Reading} {run : List Lexeme} (h : s.Reads run t) :
    takenSince s t = run := by
  simp [takenSince, h.taken]

/-- A definition that is read without errors begins as definitions do, unless it takes nothing; then
it leaves the reading as it was. -/
theorem definition_reads {s : Reading} (hs : s.Ready) (hahead : s.ahead ≠ [])
    (h : (definition s).1.errors = []) :
    (definition s).1.Ready ∧ ∃ head run, (definition s).2 = some head ∧
      s.Reads run (definition s).1 ∧
      ((run = [] ∧ (definition s).1 = s) ∨ ∃ first rest, run = first :: rest ∧ first.Opens) := by
  obtain ⟨hready, run, hreads⟩ := formed_definition.reads hs h
  cases hhead : (definition s).2 with
  | none =>
    obtain ⟨fault, hrefuse⟩ := definition_none hhead
    rw [hrefuse] at h
    exact absurd h (hs.refuse_errors hahead fault)
  | some head =>
    refine ⟨hready, head, run, rfl, hreads, ?_⟩
    cases run with
    | nil =>
      have herrors : s.errors = [] := formed_definition.errors_eq_nil h
      exact Or.inl ⟨rfl, hs.eq_of_reads_nil hready hreads herrors h hahead⟩
    | cons first rest =>
      obtain ⟨lexeme, hcurrent, hopens⟩ := definition_some hhead
      rw [current?, hreads.ahead] at hcurrent
      obtain rfl : first = lexeme := Option.some.inj hcurrent
      exact Or.inr ⟨first, rest, rfl, hopens⟩

/-! ## All definitions -/

theorem definitions_errors_grow (bound : Nat) (s : Reading) (found : List DefinitionNode) :
    s.ErrorsGrow (definitions bound s found).1 :=
  definitions_invariant (fun _ hrule t hgrow => hgrow.trans (hrule.errors_grow t)) bound (.refl s) found

/-- A definition that leaves the reading as it was is read until the bound is reached, and that is an
error. -/
theorem definitions_stuck {bound : Nat} {s : Reading} {head : Head} {found : List DefinitionNode}
    (hs : s.Ready) (hahead : s.ahead ≠ []) (hend : s.isAt .endOfText = false)
    (hstuck : definition s = (s, some head)) : (definitions bound s found).1.errors ≠ [] := by
  induction bound generalizing found with
  | zero =>
    intro h
    exact hahead (hs.report_eq_self h).2
  | succ bound ih =>
    have hgo : (s.ahead.isEmpty || s.isAt .endOfText) = false := by
      simpa [hend] using hahead
    rw [definitions, hgo, hstuck]
    exact ih

/-- A definition was read without errors from a reading that could go on. -/
structure DefinitionNode.ReadFrom (node : DefinitionNode) (s : Reading) : Prop where
  ready : s.Ready
  goesOn : s.ahead ≠ []
  head : (definition s).2 = some node.head
  reads : s.Reads node.lexemes (definition s).1
  errors : (definition s).1.errors = []

/-- **Definitions stand one behind the other.** -/
theorem definitions_reads {bound : Nat} {s : Reading} {found : List DefinitionNode} (hs : s.Ready)
    (h : (definitions bound s found).1.errors = []) :
    ∃ nodes, (definitions bound s found).2 = found.reverse ++ nodes ∧
      s.Reads (nodes.flatMap DefinitionNode.lexemes) (definitions bound s found).1 ∧
      (∀ node ∈ nodes, ∃ first rest, node.lexemes = first :: rest ∧ first.Opens) ∧
      (∀ node ∈ nodes, ∃ r, node.ReadFrom r ∧ r.ahead <:+ s.ahead) ∧
      ((definitions bound s found).1.ahead = [] ∨
        (definitions bound s found).1.isAt .endOfText = true) := by
  induction bound generalizing s found with
  | zero =>
    obtain ⟨heq, hahead⟩ := hs.report_eq_self (s := s) h
    rw [definitions, heq]
    exact ⟨[], by simp, .refl s, by simp, by simp, Or.inl hahead⟩
  | succ bound ih =>
    by_cases hstop : (s.ahead.isEmpty || s.isAt .endOfText) = true
    · rw [definitions, if_pos hstop]
      refine ⟨[], by simp, .refl s, by simp, by simp, ?_⟩
      simpa using hstop
    · obtain ⟨hahead, hend⟩ : s.ahead ≠ [] ∧ s.isAt .endOfText = false := by simpa using hstop
      have hstuck (head : Head) (heq : definition s = (s, some head)) : False :=
        definitions_stuck hs hahead hend heq h
      rw [definitions, if_neg hstop] at h ⊢
      have hnext : (definition s).1.errors = [] := by
        split at h <;> rename_i hdefinition <;>
          rw [hdefinition] <;> exact (definitions_errors_grow ..).errors_eq_nil h
      obtain ⟨hready, head, run, hhead, hreads, hrun⟩ := definition_reads hs hahead hnext
      have hdefinition : definition s = ((definition s).1, some head) := by rw [← hhead]
      rw [hdefinition] at h ⊢
      simp only at h ⊢
      obtain ⟨nodes, hnodes, hrest, hopens, hread, hlast⟩ := ih hready h
      -- one that takes nothing would be read again until the bound is reached
      rcases hrun with ⟨-, hsame⟩ | ⟨first, rest, rfl, hfirst⟩
      · rw [hsame] at hdefinition
        exact absurd hdefinition (hstuck head)
      · rw [takenSince_eq hreads] at hnodes
        refine ⟨⟨head, first :: rest⟩ :: nodes, ?_, hreads.trans hrest, ?_, ?_, hlast⟩
        · rw [takenSince_eq hreads, hnodes]
          simp
        · intro node hnode
          rcases List.mem_cons.mp hnode with rfl | hnode
          · exact ⟨first, rest, rfl, hfirst⟩
          · exact hopens node hnode
        · intro node hnode
          rcases List.mem_cons.mp hnode with rfl | hnode
          · exact ⟨s, ⟨hs, hahead, hhead, hreads, hnext⟩, List.suffix_rfl⟩
          · obtain ⟨r, hr, hsuffix⟩ := hread node hnode
            exact ⟨r, hr, hsuffix.trans (hreads.ahead ▸ List.suffix_append ..)⟩

/-! ## The whole document -/

/-- The mark of the end of a text. -/
def endMark (text : List Char) : Lexeme :=
  ⟨.ok .endOfText, [], byteSize text⟩

theorem markedLexemes_eq (text : List Char) : markedLexemes text = lexemes text ++ [endMark text] :=
  rfl

/-- What is ahead when the mark of the end is current: that mark and nothing else. -/
theorem eq_endMark_of_suffix {text : List Char} {front ahead : List Lexeme}
    (hsplit : markedLexemes text = front ++ ahead) {lexeme : Lexeme} (hhead : ahead.head? = some lexeme)
    (hkind : lexeme.kind = .ok .endOfText) : ahead = [endMark text] := by
  obtain ⟨rest, rfl⟩ := List.head?_eq_some_iff.mp hhead
  rcases List.eq_nil_or_concat rest with rfl | ⟨rest, last, rfl⟩
  · rw [markedLexemes_eq] at hsplit
    exact ((List.append_inj' hsplit rfl).2).symm
  · rw [markedLexemes_eq, List.concat_eq_append, ← List.cons_append, ← List.append_assoc] at hsplit
    have hlexemes := (List.append_inj' hsplit rfl).1
    have hmem : lexeme ∈ lexemes text := by rw [hlexemes]; simp
    exact absurd hkind (kind_ne_endOfText_of_mem hmem)

/-- The lexemes of a document that was read without errors. -/
structure DocumentTree.Lossless (tree : DocumentTree) (text : List Char)
    (lead last : List Lexeme) : Prop where
  /-- Nothing is lost, and the definitions stand one behind the other. -/
  split : markedLexemes text =
    lead ++ (tree.definitions.flatMap DefinitionNode.lexemes ++ last)
  lead : ∀ lexeme ∈ lead, ∃ kind, lexeme.kind = .ok kind ∧ kind.isTrivia = true
  opens : ∀ node ∈ tree.definitions, ∃ first rest, node.lexemes = first :: rest ∧ first.Opens
  read : ∀ node ∈ tree.definitions, ∃ r, node.ReadFrom r ∧ r.ahead <:+ markedLexemes text
  last : last = [] ∨ last = [endMark text]
  texts : tree.texts = (markedLexemes text).map Lexeme.text
  sound : ∀ lexeme ∈ lexemes text, ∃ kind, lexeme.kind = .ok kind

/-- **Reading without errors is lossless.** -/
theorem readDocument_layout {text : List Char} (h : (readDocument text).errors = []) :
    ∃ lead last, (readDocument text).Lossless text lead last := by
  let start : Reading := ⟨markedLexemes text, [], [], false⟩
  let begun := if start.skip.ahead.isEmpty || start.skip.isAt .endOfText then
    start.skip.report .emptyDocument else start.skip
  let result := definitions (begun.ahead.length + 1) begun []
  have hread : readDocument text = ⟨result.2,
      (result.1.taken.reverse ++ result.1.ahead).map Lexeme.text, result.1.errors.reverse⟩ := rfl
  have herrors : result.1.errors = [] := by simpa [hread] using h
  have hbegun : begun.errors = [] := (definitions_errors_grow ..).errors_eq_nil herrors
  have hgrow : start.skip.ErrorsGrow begun := by
    simp only [begun]
    split
    · exact report_errors ..
    · exact .refl _
  have hskip : start.skip.errors = [] := hgrow.errors_eq_nil hbegun
  obtain ⟨hready, lead, hlead, htrivia⟩ := skip_reads (s := start) (by simp [start]) hskip
  -- a document with nothing in it would be an error
  have hsame : begun = start.skip := by
    simp only [begun] at hbegun ⊢
    split at hbegun
    · rename_i hempty
      rw [if_pos hempty, (hready.report_eq_self hbegun).1]
    · rename_i hempty
      rw [if_neg hempty]
  rw [← hsame] at hready hlead
  obtain ⟨nodes, hnodes, hreads, hopens, hfrom, hlast⟩ := definitions_reads hready herrors
  have hall := hlead.trans hreads
  have hsplit : markedLexemes text = (lead ++ nodes.flatMap DefinitionNode.lexemes) ++
      result.1.ahead := hall.ahead
  have htaken : result.1.taken.reverse = lead ++ nodes.flatMap DefinitionNode.lexemes := by
    have : result.1.taken = (lead ++ nodes.flatMap DefinitionNode.lexemes).reverse ++ [] := hall.taken
    rw [this, List.append_nil, List.reverse_reverse]
  have hend : result.1.ahead = [] ∨ result.1.ahead = [endMark text] := by
    rcases hlast with hnil | hmark
    · exact Or.inl hnil
    · obtain ⟨lexeme, hcurrent, hkind⟩ := isAt_iff.mp hmark
      exact Or.inr (eq_endMark_of_suffix hsplit hcurrent hkind)
  have hnodes : (readDocument text).definitions = nodes := by simpa [hread] using hnodes
  refine ⟨lead, result.1.ahead, ?_, htrivia, ?_, ?_, hend, ?_, ?_⟩
  · rw [hnodes, hsplit, List.append_assoc]
  · rw [hnodes]
    exact hopens
  · rw [hnodes]
    intro node hnode
    obtain ⟨r, hr, hsuffix⟩ := hfrom node hnode
    have hbegun : begun.ahead <:+ markedLexemes text := ⟨lead, hlead.ahead.symm⟩
    exact ⟨r, hr, hsuffix.trans hbegun⟩
  · rw [hread, htaken, ← hsplit]
  · intro lexeme hmem
    apply hall.sound
    have hmarked : lexeme ∈ markedLexemes text := List.mem_append_left _ hmem
    rw [hsplit] at hmarked
    rcases List.mem_append.mp hmarked with hmarked | hmarked
    · exact hmarked
    · rcases hend with hend | hend
      · rw [hend] at hmarked
        simp at hmarked
      · rw [hend, List.mem_singleton] at hmarked
        exact absurd (by rw [hmarked]; rfl) (kind_ne_endOfText_of_mem hmem)

end QueryLocator.Syntax
