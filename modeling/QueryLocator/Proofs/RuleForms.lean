import QueryLocator.Proofs.Lines
import QueryLocator.Syntax.Document

/-! # What the rules of the grammar are made of

Every rule of the grammar is formed from a few steps — taking the current token, passing trivia,
reporting a fault, dropping a token that begins no type — by following one step with another and by
choosing between rules.  A choice may look at the kinds of the lexemes ahead and at the texts of those
that stand on one line, and at nothing else: not at offsets, nor at what has been taken or found
wrong.

`Rule.Formed` says this of a rule, and this module shows it of the whole grammar.  What holds of the
steps and is kept by following and choosing then holds of every rule by one induction.
-/
namespace QueryLocator.Syntax

open Reading Rule

/-- What the grammar sees of a lexeme: its kind, and its text unless a line ends inside. -/
def Lexeme.face (lexeme : Lexeme) : Except LexFault TokenKind × Option (List Char) :=
  (lexeme.kind, if lexeme.text.any endsLine then none else some lexeme.text)

/-- What the grammar sees of a reading. -/
def Reading.view (s : Reading) : List (Except LexFault TokenKind × Option (List Char)) :=
  s.ahead.map Lexeme.face

/-- A look at a reading that sees no more than its view. -/
def Reading.Seen {α : Type} (look : Reading → α) : Prop :=
  ∀ s t : Reading, s.view = t.view → look s = look t

/-- Drops the current token from the reading and reports a fault in its place. -/
def Reading.discard (fault : GrammarFault) : Rule := fun s =>
  match s.ahead with
  | [] => s
  | lexeme :: rest => settle (reportAt lexeme.offset fault { s with ahead := rest })

/-- The rules that are formed from the steps of the grammar. -/
inductive Rule.Formed : Rule → Prop where
  | pass : Formed id
  | bump : Formed Reading.bump
  | skip : Formed Reading.skip
  | report (fault : Reading → GrammarFault) : Formed fun s => s.report (fault s)
  | overLimit : Formed Reading.overLimit
  | discard : Formed (Reading.discard (.expected "item type"))
  | follow {first next : Rule} : Formed first → Formed next → Formed fun s => next (first s)
  | choose {pick : Reading → Rule} : (∀ s, Formed (pick s)) → Seen pick → Formed fun s => pick s s

/-! ## Looks at a reading -/

section Looks

theorem Lexeme.kind_eq_of_face {a b : Lexeme} (h : a.face = b.face) : a.kind = b.kind :=
  congrArg Prod.fst h

/-- Lexemes that look alike have the same text, or a line ends inside both. -/
theorem Lexeme.text_eq_of_face {a b : Lexeme} (h : a.face = b.face) :
    a.text = b.text ∨ (a.text.any endsLine = true ∧ b.text.any endsLine = true) := by
  have htext := congrArg Prod.snd h
  simp only [Lexeme.face] at htext
  split at htext <;> split at htext <;> simp_all

/-- Lexemes that look alike are the same word or neither is it. -/
theorem Lexeme.text_beq_of_face {a b : Lexeme} (h : a.face = b.face) {word : List Char}
    (hword : word.any endsLine = false) : (a.text == word) = (b.text == word) := by
  rcases Lexeme.text_eq_of_face h with htext | ⟨ha, hb⟩
  · rw [htext]
  · have hne : ∀ text : List Char, text.any endsLine = true → (text == word) = false := by
      rintro text htext
      apply beq_false_of_ne
      rintro rfl
      rw [hword] at htext
      exact Bool.false_ne_true htext
    rw [hne _ ha, hne _ hb]

theorem cases_of_map_face {a b : Option Lexeme} (h : a.map Lexeme.face = b.map Lexeme.face) :
    (a = none ∧ b = none) ∨ ∃ x y, a = some x ∧ b = some y ∧ x.face = y.face := by
  cases a <;> cases b <;> simp_all

variable {s t : Reading}

/-- The current tokens of two readings that look alike. -/
theorem Reading.current?_cases (h : s.view = t.view) :
    (s.current? = none ∧ t.current? = none) ∨
      ∃ a b, s.current? = some a ∧ t.current? = some b ∧ a.face = b.face := by
  apply cases_of_map_face
  simpa [Reading.view, Reading.current?] using congrArg List.head? h

/-- Whether a lexeme that looks like this can be the token after the current one. -/
def countsAsSecond (face : Except LexFault TokenKind × Option (List Char)) : Bool :=
  match face.1 with
  | .ok .whitespace | .ok .comment | .error _ => false
  | .ok _ => true

/-- The tokens after the current ones of two readings that look alike. -/
theorem Reading.second?_cases (h : s.view = t.view) :
    (s.second? = none ∧ t.second? = none) ∨
      ∃ a b, s.second? = some a ∧ t.second? = some b ∧ a.face = b.face := by
  have hfind (s : Reading) : s.second?.map Lexeme.face = s.view.tail.find? countsAsSecond := by
    rw [Reading.view, ← List.map_tail, List.find?_map]
    rfl
  exact cases_of_map_face (by rw [hfind, hfind, h])

theorem seen_ahead_length : Seen fun s => s.ahead.length := by
  intro s t h
  simpa [Reading.view] using congrArg List.length h

theorem seen_isEmpty : Seen fun s => s.ahead.isEmpty := by
  intro s t h
  have hlength : s.ahead.length = t.ahead.length := seen_ahead_length s t h
  rw [Bool.eq_iff_iff, List.isEmpty_iff_length_eq_zero, List.isEmpty_iff_length_eq_zero, hlength]

theorem seen_isAt (kind : TokenKind) : Seen (isAt kind) := by
  intro s t h
  unfold isAt
  obtain ⟨hs, ht⟩ | ⟨⟨ka, _, _⟩, ⟨kb, _, _⟩, hs, ht, hface⟩ := current?_cases h
  · rw [hs, ht]
  · obtain rfl : ka = kb := Lexeme.kind_eq_of_face hface
    rw [hs, ht]
    cases ka <;> rfl

theorem seen_secondIs (kind : TokenKind) : Seen (secondIs kind) := by
  intro s t h
  unfold secondIs
  obtain ⟨hs, ht⟩ | ⟨⟨ka, _, _⟩, ⟨kb, _, _⟩, hs, ht, hface⟩ := second?_cases h
  · rw [hs, ht]
  · obtain rfl : ka = kb := Lexeme.kind_eq_of_face hface
    rw [hs, ht]
    cases ka <;> rfl

theorem seen_isWord {word : String} (hword : word.toList.any endsLine = false) :
    Seen (isWord word) := by
  intro s t h
  unfold isWord
  obtain ⟨hs, ht⟩ | ⟨a, b, hs, ht, hface⟩ := current?_cases h
  · rw [hs, ht]
  · rw [hs, ht]
    exact Lexeme.text_beq_of_face hface hword

theorem seen_and {f g : Reading → Bool} (hf : Seen f) (hg : Seen g) : Seen fun s => f s && g s := by
  intro s t h
  simp only [hf s t h, hg s t h]

theorem seen_or {f g : Reading → Bool} (hf : Seen f) (hg : Seen g) : Seen fun s => f s || g s := by
  intro s t h
  simp only [hf s t h, hg s t h]

theorem seen_isNamed {word : String} (hword : word.toList.any endsLine = false) :
    Seen (isNamed word) :=
  seen_and (seen_isAt .name) (seen_isWord hword)

end Looks

/-! ## Rules formed from rules -/

namespace Rule.Formed
variable {test : Reading → Bool} {rule yes no item : Rule}

/-- A look at the reading settles how to go on. -/
theorem look {α : Type} {look : Reading → α} {rest : α → Rule} (hlook : Seen look)
    (hrest : ∀ a, Formed (rest a)) : Formed fun s => rest (look s) s := by
  refine @choose (fun s => rest (look s)) (fun s => hrest (look s)) ?_
  intro s t h
  simp only [hlook s t h]

theorem branch (htest : Seen test) (hyes : Formed yes) (hno : Formed no) :
    Formed (branch test yes no) := by
  have heq : Rule.branch test yes no = fun s => (fun b => if b then yes else no) (test s) s := by
    funext s
    simp only [Rule.branch]
    split <;> rfl
  rw [heq]
  refine @look Bool test (fun b => if b then yes else no) htest fun b => ?_
  cases b
  · exact hno
  · exact hyes

theorem optional (htest : Seen test) (hrule : Formed rule) : Formed (optional test rule) :=
  branch htest hrule pass

theorem fault (fault : GrammarFault) : Formed (Reading.report fault) :=
  report fun _ => fault

/-- A sequence of no rules. -/
theorem done : Formed (Rule.seq []) :=
  pass

/-- A rule in front of a sequence. -/
theorem before {rules : List Rule} (hrule : Formed rule) (hrules : Formed (Rule.seq rules)) :
    Formed (Rule.seq (rule :: rules)) :=
  @follow rule (Rule.seq rules) hrule hrules

theorem seq {rules : List Rule} (h : ∀ rule ∈ rules, Formed rule) : Formed (seq rules) := by
  induction rules with
  | nil => exact done
  | cons rule rules ih =>
    exact before (h rule (List.mem_cons_self ..)) (ih fun r hr => h r (List.mem_cons_of_mem rule hr))

theorem repeatFor (htest : Seen test) (hrule : Formed rule) (bound : Nat) :
    Formed (repeatFor test rule bound) := by
  induction bound with
  | zero => exact pass
  | succ bound ih => exact branch htest (follow hrule ih) pass

theorem whileAt (htest : Seen test) (hrule : Formed rule) : Formed (whileAt test rule) := by
  exact @look Nat _ (Rule.repeatFor test rule) seen_ahead_length (repeatFor htest hrule)

theorem oneOrMore (htest : Seen test) (hrule : Formed rule) (missing : GrammarFault) :
    Formed (oneOrMore test rule missing) :=
  branch htest (whileAt htest hrule) (fault missing)

theorem refuse (found : GrammarFault) : Formed (Reading.refuse found) :=
  @follow (Reading.report found) Reading.bump (fault found) bump

theorem expect (mark : TokenKind) : Formed (Reading.expect mark) := by
  have heq : Reading.expect mark = Rule.branch (isAt mark) Reading.bump
      fun s => s.report (.missingMark mark ((s.current?.map Lexeme.text).getD [])) := by
    funext s
    unfold Reading.expect Rule.branch Reading.report Reading.isAt
    cases hcurrent : s.current? <;> simp [hcurrent]
  rw [heq]
  exact branch (seen_isAt mark) bump (report _)

theorem separated (separator : TokenKind) (hitem : Formed item) :
    Formed (separated separator item) := by
  have hmore : Formed (Rule.seq [Reading.bump, item]) := bump.before (hitem.before done)
  exact (optional (seen_isAt separator) bump).before
    (hitem.before ((whileAt (seen_isAt separator) hmore).before done))

/-- Reads parts that are there, with a note whether one was read before. -/
def readParts (parts : List ((Reading → Bool) × Rule)) (missing : GrammarFault) (found : Bool) : Rule :=
  fun s =>
    let (s, found) := parts.foldl
      (fun (s, found) (test, rule) => if test s then (rule s, true) else (s, found)) (s, found)
    if found then s else s.report missing

theorem readParts_cons (part : (Reading → Bool) × Rule) (parts : List ((Reading → Bool) × Rule))
    (missing : GrammarFault) (found : Bool) :
    readParts (part :: parts) missing found =
      Rule.branch part.1 (fun s => readParts parts missing true (part.2 s))
        (readParts parts missing found) := by
  funext s
  by_cases h : part.1 s = true <;> simp [readParts, Rule.branch, h]

/-- Parts that are read if they are there: which of them were found is settled by looks. -/
theorem someOf {parts : List ((Reading → Bool) × Rule)}
    (hparts : ∀ part ∈ parts, Seen part.1 ∧ Formed part.2) (missing : GrammarFault) :
    Formed (someOf parts missing) := by
  suffices h : ∀ found, Formed (readParts parts missing found) from h false
  induction parts with
  | nil =>
    intro found
    cases found
    · exact fault missing
    · exact pass
  | cons part parts ih =>
    intro found
    obtain ⟨htest, hrule⟩ := hparts part (List.mem_cons_self ..)
    have ih := ih fun p hp => hparts p (List.mem_cons_of_mem part hp)
    rw [readParts_cons]
    exact branch htest (follow hrule (ih true)) (ih found)

end Rule.Formed

end QueryLocator.Syntax
