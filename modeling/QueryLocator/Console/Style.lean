/-! # Styles of a terminal

A styled text stands between a control sequence that sets the style and one that resets it.  A reset
inside the text does not end the style.
-/
namespace QueryLocator.Console

/-- The styles in use. -/
inductive Style where
  | bold
  | dimmed
  | green
  | yellow
  | cyan
  | boldRed
  deriving DecidableEq, Repr

/-- The control sequence with the given parameters. -/
def controlSequence (parameters : String) : List Char :=
  '\x1b' :: '[' :: parameters.toList ++ ['m']

/-- The sequence that sets a style. -/
def Style.opening : Style → List Char
  | bold => controlSequence "1"
  | dimmed => controlSequence "2"
  | green => controlSequence "32"
  | yellow => controlSequence "33"
  | cyan => controlSequence "36"
  | boldRed => controlSequence "1;31"

/-- The sequence that resets all styles. -/
def resetSequence : List Char :=
  controlSequence "0"

/-- The text with another sequence behind each reset in it. -/
def reopen (opening : List Char) : List Char → List Char
  | '\x1b' :: '[' :: '0' :: 'm' :: rest => resetSequence ++ opening ++ reopen opening rest
  | c :: rest => c :: reopen opening rest
  | [] => []

/-- The text with spaces behind it up to a width in characters. -/
def padTo (width : Nat) (text : List Char) : List Char :=
  text ++ List.replicate (width - text.length) ' '

/-- A text in a style and of at least the given width, as characters.  Without color it is only
padded. -/
def paint (color : Bool) (style : Style) (width : Nat) (text : String) : List Char :=
  if color then
    style.opening ++ padTo width (reopen style.opening text.toList) ++ resetSequence
  else padTo width text.toList

end QueryLocator.Console
