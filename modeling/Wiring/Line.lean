import Wiring.Value.Display

/-! # Output lines

Words are put on a line with single spaces, except after opening brackets and before closing
brackets and punctuation.
-/
namespace Wiring.Line
set_option autoImplicit false

def isOpening (c : Char) : Bool := " \r\n\t=\x7b[(<>".toList.contains c

def isClosing (c : Char) : Bool := " \r\n\t=\x7d])<>;:,.!?%".toList.contains c

/-- Whether a space stands between a line and the word that follows. An empty line or word takes
none. -/
def spaced (line word : List Char) : Bool :=
  match line.getLast?, word.head? with
  | some last, some first => !isOpening last && !isClosing first
  | _, _ => false

def addWord (line word : List Char) : List Char :=
  if spaced line word then line ++ ' ' :: word else line ++ word

/-- A final `$` is dropped. Any other line ends in a newline unless it ends in one already. -/
def ended (line : List Char) : List Char :=
  match line.getLast? with
  | some '$' => line.dropLast
  | some '\n' => line
  | some '\r' => line
  | _ => line ++ ['\n']

def format (words : List Value) : String :=
  String.ofList (ended ((words.map fun word => word.display.toList).foldl addWord []))

end Wiring.Line
