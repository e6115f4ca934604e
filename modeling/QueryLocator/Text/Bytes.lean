/-! # Byte offsets into a text

Offsets are counted in UTF-8 bytes while texts are lists of characters.  This module measures a text
in bytes and cuts it at a byte offset.  A cut never splits a character: an offset inside a character
stands for the offset at which that character begins.
-/
namespace QueryLocator.Text

/-- Number of bytes a text takes in UTF-8. -/
def byteSize : List Char → Nat
  | [] => 0
  | c :: rest => c.utf8Size + byteSize rest

/-- The characters that lie wholly within the first `n` bytes. -/
def takeBytes (n : Nat) : List Char → List Char
  | [] => []
  | c :: rest => if c.utf8Size ≤ n then c :: takeBytes (n - c.utf8Size) rest else []

/-- What is left after the characters that lie wholly within the first `n` bytes. -/
def dropBytes (n : Nat) : List Char → List Char
  | [] => []
  | c :: rest => if c.utf8Size ≤ n then dropBytes (n - c.utf8Size) rest else c :: rest

/-- The characters between two byte offsets. -/
def slice (start stop : Nat) (text : List Char) : List Char :=
  takeBytes (stop - start) (dropBytes start text)

/-- The offset moved back to the nearest place where a character begins or the text ends. -/
def snap (offset : Nat) (text : List Char) : Nat :=
  byteSize (takeBytes offset text)

@[simp] theorem byteSize_nil : byteSize [] = 0 := rfl

@[simp] theorem byteSize_cons (c : Char) (rest : List Char) :
    byteSize (c :: rest) = c.utf8Size + byteSize rest := rfl

@[simp] theorem byteSize_append (a b : List Char) :
    byteSize (a ++ b) = byteSize a + byteSize b := by
  induction a with
  | nil => simp
  | cons c rest ih => simp [ih, Nat.add_assoc]

theorem takeBytes_append_dropBytes (n : Nat) (text : List Char) :
    takeBytes n text ++ dropBytes n text = text := by
  induction text generalizing n with
  | nil => rfl
  | cons c rest ih =>
    by_cases h : c.utf8Size ≤ n
    · simp [takeBytes, dropBytes, h, ih]
    · simp [takeBytes, dropBytes, h]

theorem byteSize_takeBytes_le (n : Nat) (text : List Char) : byteSize (takeBytes n text) ≤ n := by
  induction text generalizing n with
  | nil => simp [takeBytes]
  | cons c rest ih =>
    by_cases h : c.utf8Size ≤ n
    · have := ih (n - c.utf8Size)
      simp only [takeBytes, h, if_true, byteSize_cons]
      omega
    · simp [takeBytes, h]

end QueryLocator.Text
