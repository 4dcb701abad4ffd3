import Polarity.Directory.Basic
import Polarity.Double.Shortest
import Polarity.Hint.Printer
import Polarity.Memory
import Polarity.Prediction.Basic

/-!
# Hints from predictions

A list of predictions gives a hint for all variables up to the largest that is predicted. Of two
predictions for one variable the later one counts. Predictions without a variable or a phase are
counted as skipped.

**The best predictions only.** A fraction of the number of variables says how many predictions to
keep from the front of the list; a fraction greater than zero keeps one at least. The size of the
hint does not depend on it.

**Order of checks.** That there is a variable at all comes first, then that a hint of this size is
possible, then that the fraction is a number not below zero.
-/

namespace Polarity

/-- A hint made of predictions, and how many of them could not be used. -/
structure Generated where
  phases : Array Phase
  skipped : Nat
  deriving DecidableEq, Repr

namespace Generated

/-- Why no hint could be made of predictions. -/
inductive Failure where
  | noIndex
  | invalidFraction (fraction : Double)
  | fault (f : Fault)
  deriving DecidableEq, Repr

/-- The text of a failure. -/
def Failure.text : Failure → String
  | noIndex => "No prediction with a variable index"
  | invalidFraction fraction => s!"Invalid top-k fraction {fraction.text}"
  | fault f => f.text

/-- The number of variables of the hint. -/
def size (g : Generated) : Nat := g.phases.size

/-- The hint as a hint file. -/
def text (g : Generated) : String := Hint.fileText g.phases.toList

/-- How many predictions a fraction of `vars` variables keeps. -/
def topCount (vars : Nat) (fraction : Double) : Nat :=
  let k := ((Double.ofNat vars).mul fraction).ceilNat Numeral.word
  if k = 0 ∧ fraction.isPositive then 1 else k

/-- Use one prediction. -/
def add (g : Generated) (p : Prediction) : Generated :=
  match p.index?, p.phase? with
  | some index, some phase => { g with phases := g.phases.setIfInBounds index phase }
  | _, _ => { g with skipped := g.skipped + 1 }

/-- The predictions that are kept. -/
def kept (predictions : List Prediction) (vars : Nat) :
    Option Double → Except Failure (List Prediction)
  | none => .ok predictions
  | some fraction =>
    if fraction.isFinite && fraction.isNonnegative then
      .ok (predictions.take (topCount vars fraction))
    else .error (.invalidFraction fraction)

/-- Make a hint of predictions. -/
def ofPredictions (predictions : List Prediction) (fraction : Option Double) :
    Except Failure Generated := do
  match (predictions.filterMap Prediction.index?).max? with
  | none => throw .noIndex
  | some index =>
    let vars ← (Memory.allow (index + 1)).mapError .fault
    let used ← kept predictions vars fraction
    return used.foldl add { phases := Array.replicate vars .unset, skipped := 0 }

/-- Why no hint file could be made of a file of predictions. -/
inductive FileFailure where
  | reading (path : Path) (cause : IoFault)
  | parsing (path : Path) (cause : Prediction.InvalidLine)
  | noPredictions (path : Path)
  | generating (cause : Failure)
  | writing (path : Path) (cause : IoFault)
  deriving DecidableEq, Repr

/-- The texts of a failure, the outermost first. -/
def FileFailure.chain : FileFailure → List String
  | reading path cause => [s!"Failed to read '{path.text}'", cause.text]
  | parsing path cause =>
    [s!"Failed to parse '{path.text}'", cause.text, "this is not a JSON value"]
  | noPredictions path => [s!"No predictions in '{path.text}'"]
  | generating cause => [cause.text]
  | writing path cause => [s!"Failed to write '{path.text}'", cause.text]

/-- The fault behind a failure, if there is one. -/
def FileFailure.fault? : FileFailure → Option Fault
  | generating (.fault f) => some f
  | _ => none

/-- Make a hint of a file of predictions. -/
def ofFile (read : Reader) (input : Path) (fraction : Option Double) :
    Except FileFailure Generated := do
  let text ← (read.text input).mapError fun failure => .reading input failure.cause
  let predictions ← (Prediction.parse text).mapError (.parsing input)
  if predictions.isEmpty then
    throw (.noPredictions input)
  (ofPredictions predictions fraction).mapError .generating

/-- Make a hint file of a file of predictions. -/
def toFile (input output : Path) (fraction : Option Double) :
    EStateM FileFailure Directory Generated := do
  let generated ← match ofFile (← get).read input fraction with
    | .ok g => pure g
    | .error failure => throw failure
  match (← get).write output (Utf8.encode generated.text) with
  | .ok written =>
    set written
    return generated
  | .error cause => throw (.writing output cause)

end Generated

end Polarity
