/-! # Blank text

Which characters count as white space where the console asks whether a text is blank.  The class is
the Unicode property `White_Space`, which is wider than the class of characters a query language or
a data format skips between its tokens.
-/
namespace QueryLocator.Text

/-- The ranges of the Unicode property `White_Space`, both ends included, in increasing order. -/
def blankRanges : List (Nat × Nat) :=
  [(0x09, 0x0D), (0x20, 0x20), (0x85, 0x85), (0xA0, 0xA0), (0x1680, 0x1680), (0x2000, 0x200A),
    (0x2028, 0x2029), (0x202F, 0x202F), (0x205F, 0x205F), (0x3000, 0x3000)]

/-- Whether a character has the property `White_Space`. -/
def isBlankChar (c : Char) : Bool :=
  blankRanges.any fun (low, high) => low ≤ c.toNat && c.toNat ≤ high

/-- A text is blank when trimming white space at both ends leaves nothing, that is, when it holds
white space only. -/
def isBlank (text : String) : Bool :=
  text.toList.all isBlankChar

/-- The table has the twenty-five characters of the property. -/
example : (blankRanges.map fun (low, high) => high - low + 1).sum = 25 := by decide

end QueryLocator.Text
