import QueryLocator.Span

/-! # Top-level definitions

The definitions of a query document: operations, fragments, and definitions of the type system,
which the explorer does not show.  A definition that was read from a text has a span; one that was
built by hand may have none.
-/
namespace QueryLocator

/-- The types of operations. -/
inductive OperationType where
  | query
  | mutation
  | subscription
  deriving DecidableEq, Repr

/-- The keyword that introduces an operation of a type. -/
def OperationType.keyword : OperationType → String
  | query => "query"
  | mutation => "mutation"
  | subscription => "subscription"

/-- The operation type that a keyword introduces. -/
def OperationType.ofKeyword? : String → Option OperationType
  | "query" => some query
  | "mutation" => some mutation
  | "subscription" => some subscription
  | _ => none

/-- A top-level definition of a document. -/
inductive Definition where
  | operation (type : OperationType) (name : Option String) (span : Option Span)
  | fragment (name : Option String) (typeCondition : Option String) (span : Option Span)
  /-- A definition or an extension of the type system. -/
  | other (span : Option Span)
  deriving DecidableEq, Repr

namespace Definition

/-- Where the definition stands in its text, if that is known. -/
def span? : Definition → Option Span
  | operation _ _ span => span
  | fragment _ _ span => span
  | other span => span

/-- The name of an operation that has one. -/
def operationName? : Definition → Option String
  | operation _ name _ => name
  | _ => none

end Definition
end QueryLocator
