import QueryLocator.Text.Quoted

/-! # Data of the wrong shape

What can be wrong with data that is well formed but does not fit what it is read as.
-/
namespace QueryLocator

/-- What was found in the data, as a message names it. -/
inductive Found where
  | null
  | boolean (value : Bool)
  | integer (value : Int)
  | float (text : List Char)
  | string (value : String)
  | sequence
  | map
  deriving DecidableEq, Repr

/-- The words for what was found. -/
def Found.describe : Found → String
  | null => "null"
  | boolean value => s!"boolean `{value}`"
  | integer value => s!"integer `{value}`"
  | float text => s!"floating point `{String.ofList text}`"
  | string value => s!"string {Text.quoted value}"
  | sequence => "sequence"
  | map => "map"

/-- What is wrong with the shape of data. -/
inductive Mismatch where
  | invalidType (found : Found) (expected : String)
  | invalidValue (found : Found) (expected : String)
  | invalidLength (length : Nat) (expected : String)
  | missingField (name : String)
  | duplicateField (name : String)
  | unknownVariant (name : String) (variants : List String)
  /-- None of the forms that the data may have fits it. -/
  | noVariant (type : String)
  deriving DecidableEq, Repr

/-- The variants that a message offers. -/
def Mismatch.offer (variants : List String) : String :=
  let marked := variants.map fun variant => s!"`{variant}`"
  match marked with
  | [only] => only
  | [first, second] => s!"{first} or {second}"
  | more => "one of " ++ ", ".intercalate more

/-- The wording of a mismatch. -/
def Mismatch.message : Mismatch → String
  | invalidType found expected => s!"invalid type: {found.describe}, expected {expected}"
  | invalidValue found expected => s!"invalid value: {found.describe}, expected {expected}"
  | invalidLength length expected => s!"invalid length {length}, expected {expected}"
  | missingField name => s!"missing field `{name}`"
  | duplicateField name => s!"duplicate field `{name}`"
  | unknownVariant name variants =>
    s!"unknown variant `{name}`, expected {offer variants}"
  | noVariant type => s!"data did not match any variant of untagged enum {type}"

end QueryLocator
