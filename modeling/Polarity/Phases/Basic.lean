import Polarity.Assignment
import Polarity.Hint.Basic
import Polarity.Phases.Array

/-!
# Stored phases

Three phases are remembered for each variable.

* `best` and `target` are values from the longest assignments a search has met, or proposals of a
  hint.
* `saved` is the value a variable had when it was last freed.

The three arrays always have one size. An array is only ever overwritten by set phases, so what is
remembered stays until something newer replaces it.

**Decisions.** `decisionPhase` is the sign to try for a variable: its target phase if these are in
use and it is set, else its saved phase, else a given default.
-/

namespace Polarity

/-- The remembered phases of the variables. -/
structure Phases where
  best : PhaseArray := {}
  saved : PhaseArray := {}
  target : PhaseArray := {}
  deriving DecidableEq, Repr, Inhabited

namespace Phases

/-- The number of variables. -/
def size (p : Phases) : Nat := p.best.size

/-- There are no variables. -/
def isEmpty (p : Phases) : Bool := p.size == 0

/-- Change the best phases. -/
def onBest {α : Type} : Change PhaseArray α → Change Phases α :=
  Change.on best fun p a => { p with best := a }

/-- Change the saved phases. -/
def onSaved {α : Type} : Change PhaseArray α → Change Phases α :=
  Change.on saved fun p a => { p with saved := a }

/-- Change the target phases. -/
def onTarget {α : Type} : Change PhaseArray α → Change Phases α :=
  Change.on target fun p a => { p with target := a }

/-- Add variables without remembered phases. Memory for all three arrays is found before any of
them grows. -/
def grow (size : Nat) : Change Phases Unit := do
  Change.ensure ((← get).size < size) .phasesNotGrowing
  onBest (PhaseArray.reserve size)
  onSaved (PhaseArray.reserve size)
  onTarget (PhaseArray.reserve size)
  onBest (PhaseArray.grow size)
  onSaved (PhaseArray.grow size)
  onTarget (PhaseArray.grow size)

/-- Drop the variables from `size` on. -/
def shrink (size : Nat) : Change Phases Unit := do
  Change.ensure (size < (← get).size) .phasesNotShrinking
  onBest (PhaseArray.shrink size)
  onSaved (PhaseArray.shrink size)
  onTarget (PhaseArray.shrink size)

/-- Remember the present values as best phases. -/
def saveBest (a : Assignment) : Change Phases Unit := do
  Change.ensure ((← get).best.size = a.vars) .sizesDiffer
  onBest (PhaseArray.overlay a.varValues)

/-- Remember the present values as target phases. -/
def saveTarget (a : Assignment) : Change Phases Unit := do
  Change.ensure ((← get).target.size = a.vars) .sizesDiffer
  onTarget (PhaseArray.overlay a.varValues)

/-- Remember the value that a variable had. -/
def save (v : Variable) (value : Phase) : Change Phases Unit :=
  if value.isSet then onSaved (PhaseArray.set v value) else pure ()

/-- The sign to try when a variable is decided. -/
def decisionPhase (p : Phases) (v : Variable) (useTarget : Bool) (initial : Phase) :
    Except Failure Phase := do
  let wanted ← if useTarget then p.target.get v else pure .unset
  if wanted.isSet then
    return wanted
  let last ← p.saved.get v
  return initial.overlay last

/-- Take the set phases of a hint as best and target phases. No variable gets a value by it. -/
def apply (h : Hint) : Change Phases Unit := do
  Change.ensure (h.size = (← get).size) .hintSizeDiffers
  onBest (PhaseArray.overlay h.phases)
  onTarget (PhaseArray.overlay h.phases)

end Phases

end Polarity
