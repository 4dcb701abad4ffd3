import Polarity.Json.Parser
import Polarity.Phase
import Polarity.Text.Layout

/-!
# Predictions

A list of predictions is a text with one JSON value in each line that is not blank, the most
confident prediction first. A prediction is an object with the fields `index`, a variable, and
`assignment`, which is 0 or 1; a value that is something else is kept too and predicts nothing.

**Lines.** Lines are counted from one and blank lines are counted too, so that a diagnostic names the
line of the file. How a line is decoded is a parameter of `parseWith`.
-/

namespace Polarity

/-- A line of a list of predictions. -/
structure Prediction where
  line : Nat
  value : Json
  deriving Repr

namespace Prediction

/-- The variable that is predicted. -/
def index? (p : Prediction) : Option Nat := (p.value.field? "index").bind Json.toNat?

/-- The phase that is predicted. -/
def phase? (p : Prediction) : Option Phase :=
  match (p.value.field? "assignment").bind Json.toNat? with
  | some 0 => some .negative
  | some 1 => some .positive
  | _ => none

/-- The number of a line that is not JSON. -/
structure InvalidLine where
  line : Nat
  deriving DecidableEq, Repr

/-- The text of the error for a line that is not JSON. -/
def InvalidLine.text (e : InvalidLine) : String := s!"Invalid JSON at line {e.line}"

/-- Read one line, given how lines are decoded. -/
def readLine (decode : String → Option Json) : Nat × List Char → Except InvalidLine Prediction
  | (n, line) =>
    match decode (String.ofList line) with
    | some value => .ok { line := n, value }
    | none => .error ⟨n⟩

/-- Read a list of predictions, given how lines are decoded. -/
def parseWith (decode : String → Option Json) (text : String) :
    Except InvalidLine (List Prediction) :=
  ((Text.numbered 1 (Text.lines text.toList)).filter fun (_, line) =>
    !(Text.trim line).isEmpty).mapM (readLine decode)

/-- Read a list of predictions. -/
def parse (text : String) : Except InvalidLine (List Prediction) := parseWith Json.parse? text

end Prediction

end Polarity
