import Polarity.Text.Blank

/-!
# Lines and words

How a text falls into lines, and a line into words.

**Lines** end with a newline character; a carriage return right before it belongs to the line end.
The last line need not be ended, and then keeps a carriage return at its end. Nothing after the
last newline is no line.

**Words** are the longest runs of characters that are not blank.
-/

namespace Polarity.Text

/-- Drop one carriage return from the end. -/
def dropReturn (line : List Char) : List Char :=
  if line.getLast? = some '\r' then line.dropLast else line

/-- The lines of the pieces between newlines. -/
def linesOfPieces : List (List Char) → List (List Char)
  | [] => []
  | [last] => if last.isEmpty then [] else [last]
  | piece :: later => dropReturn piece :: linesOfPieces later

/-- The lines of a text. -/
def lines (text : List Char) : List (List Char) :=
  linesOfPieces (text.splitOnP (· == '\n'))

/-- The words of a text. -/
def words (text : List Char) : List (List Char) :=
  (text.splitOnP isBlank).filter (!·.isEmpty)

/-- Drop the blanks from both ends. -/
def trim (text : List Char) : List Char :=
  ((text.dropWhile isBlank).reverse.dropWhile isBlank).reverse

/-- A list with the place of each member, counted from `first`. -/
def numbered {α : Type} (first : Nat) (l : List α) : List (Nat × α) :=
  (l.zipIdx first).map fun (a, n) => (n, a)

end Polarity.Text
