import QueryLocator.Classification

/-! # Selectors

The explorer addresses the node of a definition by a selector: the scope of the explorer, then the
element of the node.
-/
namespace QueryLocator

/-- The element of the node of a definition: kind and name with a hyphen between them. -/
def elementId (kind : DefinitionKind) (name : String) : String :=
  s!"{kind.label}-{name}"

/-- The scope that all selectors begin with. -/
structure Namespace where
  root : String
  deriving DecidableEq, Repr

namespace Namespace

/-- The scope when none is configured. -/
def defaultRoot : String := ".graphiql-explorer-root"

instance : Inhabited Namespace := ⟨⟨defaultRoot⟩⟩

/-- The selector of the node of a definition. -/
def selector (scope : Namespace) (kind : DefinitionKind) (name : String) : String :=
  s!"{scope.root} #{elementId kind name}"

end Namespace
end QueryLocator
