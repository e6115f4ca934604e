import QueryLocator.Definition

/-! # Classification

The kind and the name under which the explorer shows a definition.
-/
namespace QueryLocator

/-- The kinds of nodes in the explorer. -/
inductive DefinitionKind where
  | query
  | mutation
  | subscription
  | fragment
  /-- What the explorer does not show. -/
  | unknown
  deriving DecidableEq, Repr

/-- The word for a kind. -/
def DefinitionKind.label : DefinitionKind → String
  | query => "query"
  | mutation => "mutation"
  | subscription => "subscription"
  | fragment => "fragment"
  | unknown => "unknown"

/-- The kind that a word stands for. -/
def DefinitionKind.ofLabel? : String → Option DefinitionKind
  | "query" => some query
  | "mutation" => some mutation
  | "subscription" => some subscription
  | "fragment" => some fragment
  | "unknown" => some unknown
  | _ => none

/-- The kind of the operations of a type. -/
def OperationType.kind : OperationType → DefinitionKind
  | query => .query
  | mutation => .mutation
  | subscription => .subscription

/-- The name that stands in for a missing one. -/
def unknownName : String := "unknown"

/-- The kind and the name of a definition. -/
structure Classification where
  kind : DefinitionKind
  name : String
  deriving DecidableEq, Repr

/-- Classifies a definition.  A missing name is read as `unknown`. -/
def Definition.classify : Definition → Classification
  | operation type name _ => ⟨type.kind, name.getD unknownName⟩
  | fragment name _ _ => ⟨.fragment, name.getD unknownName⟩
  | other _ => ⟨.unknown, unknownName⟩

end QueryLocator
