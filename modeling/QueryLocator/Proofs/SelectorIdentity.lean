import Mathlib.Data.List.Count
import QueryLocator.Proofs.DefinitionTokens
import QueryLocator.Selector

/-! # What a selector identifies

The element of a node is the word for its kind and the name of the definition with a hyphen between
them.  Nothing is escaped, and names may hold anything, hyphens too.  The words for the kinds hold no
hyphen, so the first hyphen of an element is the one behind the kind, and kind and name can be read
back (`elementId_inj`).

Two definitions therefore have the same selector exactly when the explorer shows them alike
(`Definition.ShownAlike`).  In a document that parses all names are words, and the selector consists
of the scope and of a plain element (`selectors_identify_nodes`).
-/
namespace QueryLocator

/-! ## Elements -/

/-- The parts in front of the first separator and behind it are determined by the whole. -/
theorem append_separator_inj {α : Type} {separator : α} {a b x y : List α} (ha : separator ∉ a)
    (hb : separator ∉ b) : a ++ separator :: x = b ++ separator :: y ↔ a = b ∧ x = y := by
  induction a generalizing b with
  | nil =>
    cases b with
    | nil => simp
    | cons d b =>
      have hd : separator ≠ d := fun heq => hb (heq ▸ List.mem_cons_self ..)
      simp [hd]
  | cons c a ih =>
    cases b with
    | nil =>
      have hc : c ≠ separator := fun heq => ha (heq ▸ List.mem_cons_self ..)
      simp [hc]
    | cons d b =>
      have hrest := ih (fun hmem => ha (List.mem_cons_of_mem _ hmem))
        (fun hmem => hb (List.mem_cons_of_mem _ hmem))
      simp only [List.cons_append, List.cons.injEq, hrest, and_assoc]

section Kinds
variable {kind kind' : DefinitionKind} {name name' : String}

theorem DefinitionKind.hyphen_not_mem_label (kind : DefinitionKind) :
    '-' ∉ kind.label.toList := by
  cases kind <;> decide

theorem DefinitionKind.ofLabel?_label (kind : DefinitionKind) :
    DefinitionKind.ofLabel? kind.label = some kind := by
  cases kind <;> rfl

theorem DefinitionKind.label_injective : Function.Injective DefinitionKind.label := by
  intro a b h
  exact Option.some.inj (by rw [← a.ofLabel?_label, h, b.ofLabel?_label])

theorem elementId_toList (kind : DefinitionKind) (name : String) :
    (elementId kind name).toList = kind.label.toList ++ '-' :: name.toList := by
  simp [elementId, toString]

theorem Namespace.selector_eq (scope : Namespace) (kind : DefinitionKind) (name : String) :
    scope.selector kind name = scope.root ++ " #" ++ elementId kind name := by
  simp [selector, toString]

/-- **Kind and name can be read off an element**, whatever the name holds. -/
theorem elementId_inj : elementId kind name = elementId kind' name' ↔ kind = kind' ∧ name = name' := by
  rw [← String.toList_inj, elementId_toList, elementId_toList,
    append_separator_inj kind.hyphen_not_mem_label kind'.hyphen_not_mem_label, String.toList_inj,
    String.toList_inj, DefinitionKind.label_injective.eq_iff]

/-- Selectors of one scope are told apart by their elements. -/
theorem Namespace.selector_inj (scope : Namespace) :
    scope.selector kind name = scope.selector kind' name' ↔ kind = kind' ∧ name = name' := by
  rw [selector_eq, selector_eq, String.append_right_inj, elementId_inj]

end Kinds

/-! ## Definitions that are shown alike -/

/-- The explorer shows two definitions alike: operations of one type or fragments, with the same name
once `unknown` stands for a missing one, or any two definitions of the type system. -/
inductive Definition.ShownAlike : Definition → Definition → Prop where
  | operations {type : OperationType} {name name' : Option String} (span span' : Option Span)
      (hname : name.getD "unknown" = name'.getD "unknown") :
      ShownAlike (.operation type name span) (.operation type name' span')
  | fragments {name name' : Option String} (condition condition' : Option String)
      (span span' : Option Span) (hname : name.getD "unknown" = name'.getD "unknown") :
      ShownAlike (.fragment name condition span) (.fragment name' condition' span')
  | others (span span' : Option Span) : ShownAlike (.other span) (.other span')

theorem OperationType.kind_injective : Function.Injective OperationType.kind := by
  intro a b h
  cases a <;> cases b <;> simp_all [OperationType.kind]

/-- Definitions have the same kind and name exactly when they are shown alike. -/
theorem Definition.classify_eq_iff {a b : Definition} : a.classify = b.classify ↔ a.ShownAlike b := by
  constructor
  · intro h
    cases a with
    | operation type name span =>
      cases b with
      | operation type' name' span' =>
        obtain ⟨hkind, hname⟩ := Classification.mk.inj h
        obtain rfl := OperationType.kind_injective hkind
        exact .operations span span' hname
      | fragment => cases type <;> cases h
      | other => cases type <;> cases h
    | fragment name condition span =>
      cases b with
      | operation type' => cases type' <;> cases h
      | fragment name' condition' span' =>
        exact .fragments condition condition' span span' (Classification.mk.inj h).2
      | other => cases h
    | other span =>
      cases b with
      | operation type' => cases type' <;> cases h
      | fragment => cases h
      | other span' => exact .others span span'
  · rintro (⟨_, _, hname⟩ | ⟨_, _, _, _, hname⟩ | _)
    · exact congrArg (Classification.mk _) hname
    · exact congrArg (Classification.mk _) hname
    · rfl

/-! ## Definitions that were read from a text -/

/-- A letter, a digit or an underscore. -/
def IsWordChar (c : Char) : Prop :=
  c = '_' ∨ ('0' ≤ c ∧ c ≤ '9') ∨ ('A' ≤ c ∧ c ≤ 'Z') ∨ ('a' ≤ c ∧ c ≤ 'z')

instance : DecidablePred IsWordChar := fun c =>
  inferInstanceAs (Decidable (c = '_' ∨ ('0' ≤ c ∧ c ≤ '9') ∨ ('A' ≤ c ∧ c ≤ 'Z') ∨
    ('a' ≤ c ∧ c ≤ 'z')))

theorem DefinitionKind.isWordChar_of_mem_label (kind : DefinitionKind) :
    ∀ c ∈ kind.label.toList, IsWordChar c := by
  cases kind <;> simp [DefinitionKind.label, IsWordChar]

theorem NameText.isWordChar {name : String} (h : NameText name) : ∀ c ∈ name.toList, IsWordChar c := by
  obtain ⟨first, rest, hname, hfirst, hrest⟩ := h
  rw [hname, List.forall_mem_cons]
  exact ⟨hfirst.imp_right Or.inr, hrest⟩

/-- The name that a definition is shown with is one of its own or stands in for it. -/
theorem Definition.isWordChar_of_mem_name {definition : Definition}
    (h : ∀ name ∈ definition.names, NameText name) :
    ∀ c ∈ definition.classify.name.toList, IsWordChar c := by
  have hunknown : ∀ c ∈ unknownName.toList, IsWordChar c := by simp [unknownName, IsWordChar]
  cases definition with
  | operation type name span =>
    cases name with
    | none => exact hunknown
    | some name => exact (h name (by simp [names])).isWordChar
  | fragment name condition span =>
    cases name with
    | none => exact hunknown
    | some name => exact (h name (by simp [names])).isWordChar
  | other span => exact hunknown

/-- An element of word characters has just the hyphen behind the kind. -/
theorem elementId_plain (kind : DefinitionKind) {name : String}
    (h : ∀ c ∈ name.toList, IsWordChar c) :
    (∀ c ∈ (elementId kind name).toList, IsWordChar c ∨ c = '-') ∧
      (elementId kind name).toList.count '-' = 1 := by
  have hhyphen : '-' ∉ name.toList := fun hmem => absurd (h '-' hmem) (by decide)
  rw [elementId_toList]
  constructor
  · intro c hmem
    rcases List.mem_append.mp hmem with hlabel | hrest
    · exact Or.inl (kind.isWordChar_of_mem_label c hlabel)
    · rcases List.mem_cons.mp hrest with hsame | hname
      · exact Or.inr hsame
      · exact Or.inl (h c hname)
  · rw [List.count_append, List.count_cons_self, List.count_eq_zero.mpr kind.hyphen_not_mem_label,
      List.count_eq_zero.mpr hhyphen]

/-- **Selectors identify what the explorer shows.**  In any scope, and whatever the names hold, a
selector and an element stand for one kind and one name, so two definitions have the same selector
exactly when they are shown alike.  In a document that parses, what comes behind the scope is a
blank, a hash mark, and an element of letters, digits and underscores with a single hyphen. -/
theorem selectors_identify_nodes (scope : Namespace) :
    (∀ kind kind' name name',
      (scope.selector kind name = scope.selector kind' name' ↔ kind = kind' ∧ name = name') ∧
      (elementId kind name = elementId kind' name' ↔ kind = kind' ∧ name = name')) ∧
    (∀ a b : Definition,
      scope.selector a.classify.kind a.classify.name = scope.selector b.classify.kind b.classify.name ↔
        a.ShownAlike b) ∧
    ∀ text document, Document.parse text = .ok document →
      ∀ definition ∈ document.definitions, ∃ element : String,
        scope.selector definition.classify.kind definition.classify.name =
          scope.root ++ " #" ++ element ∧
        (∀ c ∈ element.toList, IsWordChar c ∨ c = '-') ∧ element.toList.count '-' = 1 := by
  refine ⟨fun _ _ _ _ => ⟨scope.selector_inj, elementId_inj⟩, fun a b => ?_, ?_⟩
  · rw [scope.selector_inj, ← Definition.classify_eq_iff]
    exact (iff_of_eq (Classification.mk.injEq ..)).symm
  · intro text document hparse definition hmem
    obtain ⟨_, _, _, -, hreflects⟩ := Document.exists_reflects hparse hmem
    exact ⟨_, scope.selector_eq _ _,
      elementId_plain _ (Definition.isWordChar_of_mem_name hreflects.names)⟩

/-- A mutation without a name, a fragment that is called `unknown`, one whose name begins with an
underscore, and a type, in a scope that looks like a selector itself. -/
theorem selectors_identify_nodes_of_unknown_names :
    ∃ document,
      Document.parse
          "mutation\x7ba\x7dfragment unknown on T\x7ba\x7dfragment _9 on T\x7ba\x7dscalar S" =
        .ok document ∧
      document.definitions.map (fun definition => (Namespace.mk "#query-a").selector
          definition.classify.kind definition.classify.name) =
        ["#query-a #mutation-unknown", "#query-a #fragment-unknown", "#query-a #fragment-_9",
          "#query-a #unknown-unknown"] ∧
      ∀ definition ∈ document.definitions, ∃ element : String,
        (Namespace.mk "#query-a").selector definition.classify.kind definition.classify.name =
          "#query-a" ++ " #" ++ element ∧
        (∀ c ∈ element.toList, IsWordChar c ∨ c = '-') ∧ element.toList.count '-' = 1 := by
  have hparse : Document.parse
      "mutation\x7ba\x7dfragment unknown on T\x7ba\x7dfragment _9 on T\x7ba\x7dscalar S" = .ok _ := rfl
  exact ⟨_, hparse, by decide, (selectors_identify_nodes ⟨"#query-a"⟩).2.2 _ _ hparse⟩

end QueryLocator
