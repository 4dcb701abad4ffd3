import Polarity.Solver.Basic

/-!
# The trail

The literals that a search has made true, the latest first, with the reason for each. An *implied*
literal is the only one left of a clause. A *decided* literal was chosen and its negation is still
to be tried; a *flipped* one is such a negation, tried after the choice has failed. Decided and
flipped literals count as decisions, and the number of decisions is the level of the trail.

**The longest trails.** A search remembers how long the assignments were from which target and best
phases were taken, and takes them anew when a conflict comes at a longer one.
-/

namespace Polarity

/-- Why a literal is on the trail. -/
inductive Reason where
  | implied
  | decided
  | flipped
  deriving DecidableEq, Repr

/-- A literal on the trail. -/
structure Entry where
  lit : Literal
  reason : Reason
  deriving DecidableEq, Repr

/-- A search under way: its solver, its trail with the latest entry first, and the lengths of the
assignments from which best and target phases were taken. -/
structure Search where
  solver : Solver
  trail : List Entry := []
  bestAssigned : Nat := 0
  targetAssigned : Nat := 0
  deriving DecidableEq, Repr

/-- The number of decisions on a trail. -/
def level (trail : List Entry) : Nat :=
  trail.countP fun e => e.reason ≠ .implied

namespace Search

/-- The values of the literals. -/
def assignment (s : Search) : Assignment := s.solver.store.assignment

/-- Change the solver. -/
def onSolver {α : Type} : Change Solver α → Change Search α :=
  Change.on solver fun s t => { s with solver := t }

/-- Change the store. -/
def onStore {α : Type} (c : Change Store α) : Change Search α :=
  onSolver (Solver.onStore c)

/-- Make a literal true and put it on the trail. -/
def push (lit : Literal) (reason : Reason) : Change Search Unit := do
  onStore (Store.onAssignment (Assignment.assign lit))
  modify fun s => { s with trail := ⟨lit, reason⟩ :: s.trail }

/-- After a conflict, remember the values as target and as best phases if this is the longest
assignment for them. -/
def savePhases : Change Search Unit := do
  let assigned := (← get).assignment.assigned
  if (← get).targetAssigned < assigned then
    onStore Store.saveTarget
    modify fun s => { s with targetAssigned := assigned }
  if (← get).bestAssigned < assigned then
    onStore Store.saveBest
    modify fun s => { s with bestAssigned := assigned }

/-- Take back entries up to the latest one that is decided, and flip that one. When its decision
was the first, lengths for target phases count from zero again. The answer says whether there was
such an entry. -/
def unwind : List Entry → Change Search Bool
  | [] => return false
  | e :: earlier => do
    modify fun s => { s with trail := earlier }
    let _ ← onStore (Store.backtrack e.lit.var)
    if e.reason = .decided then
      if level earlier = 0 then
        modify fun s => { s with targetAssigned := 0 }
      push (-e.lit) .flipped
      return true
    else unwind earlier

/-- Undo the trail up to the latest decision whose negation is still to be tried, and try it. -/
def backtrack : Change Search Bool := do
  unwind (← get).trail

end Search

end Polarity
