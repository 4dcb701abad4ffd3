import Polarity.Hint.Parser
import Polarity.Phases.Basic

/-!
# Assignment and phases together

A `Store` holds the present values and the remembered phases of the variables. Its two halves can
be resized apart; operations that need them to agree check it.

**Calls.** A `Store.Call` is one operation on a store as a value, and `Store.call` carries it out, so
that a statement about every history of a store is a statement about lists of calls.
-/

namespace Polarity

/-- The values and the remembered phases of the variables. -/
structure Store where
  assignment : Assignment := {}
  phases : Phases := {}
  deriving DecidableEq, Repr, Inhabited

namespace Store

/-- Change the assignment. -/
def onAssignment {α : Type} : Change Assignment α → Change Store α :=
  Change.on assignment fun s a => { s with assignment := a }

/-- Change the remembered phases. -/
def onPhases {α : Type} : Change Phases α → Change Store α :=
  Change.on phases fun s p => { s with phases := p }

/-- Remember the present values as best phases. -/
def saveBest : Change Store Unit := do
  onPhases (Phases.saveBest (← get).assignment)

/-- Remember the present values as target phases. -/
def saveTarget : Change Store Unit := do
  onPhases (Phases.saveTarget (← get).assignment)

/-- Free a variable and remember the value it had, which is the answer. -/
def backtrack (v : Variable) : Change Store Phase := do
  let past ← onAssignment (Assignment.unassign v)
  onPhases (Phases.save v past)
  return past

/-- The path that stands in diagnostics for a hint that comes from no file. -/
def inlineHint : Path := .ofText "hint.txt"

/-- One operation on a store. -/
inductive Call where
  | grow (vars : Nat)
  | shrink (vars : Nat)
  | resizeAssignment (vars : Nat)
  | saveBest
  | saveTarget
  | save (v : Variable) (value : Phase)
  | apply (hint : String)
  | decision (v : Variable) (useTarget : Bool) (initial : Phase)
  | backtrack (v : Variable)
  | assign (l : Literal)
  | unassign (v : Variable)
  | value (l : Literal)
  | varValue (v : Variable)
  | firstUnassigned
  deriving DecidableEq, Repr

/-- What an operation on a store answers. -/
inductive Reply where
  | done
  | phase (p : Phase)
  | first (v : Option Variable)
  deriving DecidableEq, Repr

/-- Read the hint that a text holds, as long as it may be. -/
def hintOf (text : String) : Except Failure Hint :=
  (Hint.parseAll text inlineHint).mapError .error

/-- Carry out a call. -/
def call : Call → Change Store Reply
  | .grow vars => do onPhases (Phases.grow vars); return .done
  | .shrink vars => do onPhases (Phases.shrink vars); return .done
  | .resizeAssignment vars => do onAssignment (Assignment.resize vars); return .done
  | .saveBest => do saveBest; return .done
  | .saveTarget => do saveTarget; return .done
  | .save v value => do onPhases (Phases.save v value); return .done
  | .apply text => do
    let hint ← Change.read fun _ => hintOf text
    onPhases (Phases.apply hint)
    return .done
  | .decision v useTarget initial => do
    return .phase (← Change.read (·.phases.decisionPhase v useTarget initial))
  | .backtrack v => do return .phase (← backtrack v)
  | .assign l => do onAssignment (Assignment.assign l); return .done
  | .unassign v => do return .phase (← onAssignment (Assignment.unassign v))
  | .value l => do return .phase (← Change.read (·.assignment.value l))
  | .varValue v => do return .phase (← Change.read (·.assignment.varValue v))
  | .firstUnassigned => do return .first (← get).assignment.firstUnassigned

/-- Carry out calls one after the other, those that fail included. -/
def run (calls : List Call) (s : Store) : Store :=
  calls.foldl (fun s c => ((call c).carry s).state) s

end Store

end Polarity
