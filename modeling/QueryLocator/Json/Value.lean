import QueryLocator.Json.Number

/-! # JSON values

A value as it was written: an object keeps its members in order, also those whose key comes again.
Where keys have to be unique, the last member with a key gives the value and the first one the place.
-/
namespace QueryLocator

/-- A JSON value. -/
inductive Json where
  | null
  | boolean (value : Bool)
  | number (value : JsonNumber)
  | string (value : String)
  | array (items : List Json)
  | object (members : List (String × Json))
  deriving Inhabited

namespace Json

/-- Puts a value under a key: in the place of the member that has the key, else at the end. -/
def put {α : Type} (key : String) (value : α) : List (String × α) → List (String × α)
  | [] => [(key, value)]
  | (found, old) :: rest =>
    if found = key then (key, value) :: rest else (found, old) :: put key value rest

/-- Members with unique keys: the last value of each key, in the place of its first one. -/
def unique {α : Type} (members : List (String × α)) : List (String × α) :=
  members.foldl (fun found (key, value) => put key value found) []

mutual

/-- The value with unique keys in all its objects. -/
def normalize : Json → Json
  | null => null
  | boolean value => boolean value
  | number value => number value
  | string value => string value
  | array items => array (normalizeItems items)
  | object members => object (unique (normalizeMembers members))

/-- The items, each with unique keys in all its objects. -/
def normalizeItems : List Json → List Json
  | [] => []
  | item :: rest => item.normalize :: normalizeItems rest

/-- The members, each with unique keys in all objects of its value. -/
def normalizeMembers : List (String × Json) → List (String × Json)
  | [] => []
  | (key, value) :: rest => (key, value.normalize) :: normalizeMembers rest

end

/-- The value of the first member with a key. -/
def member? (key : String) : List (String × Json) → Option Json
  | [] => none
  | (found, value) :: rest => if found = key then some value else member? key rest

/-- A number that is a count. -/
def ofNat (n : Nat) : Json :=
  number (.integer n)

end Json
end QueryLocator
