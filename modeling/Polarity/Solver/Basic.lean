import Polarity.Solver.Engine
import Polarity.Solver.Options
import Polarity.Store

/-!
# Solvers

A solver is a store of values and phases whose halves are resized together, with options, counters
and a stop flag, and with a window for initial phases.

**The window for initial phases** is open until the first hint is applied or the first search
starts. `initPhases` applies a hint through it and `loadInitialPhases` a hint file; when they fail
the window stays as it was.
-/

namespace Polarity

/-- The state of a solver. -/
structure Solver where
  options : Options := {}
  store : Store := {}
  engine : Engine := {}
  initPhaseFile : Option Path := none
  locked : Bool := false
  deriving DecidableEq, Repr, Inhabited

namespace Solver

/-- A solver with options and nothing else. -/
def ofOptions (options : Options) : Solver := { options }

/-- The number of variables. -/
def vars (s : Solver) : Nat := s.store.assignment.vars

/-- Change the store. -/
def onStore {α : Type} : Change Store α → Change Solver α :=
  Change.on store fun s t => { s with store := t }

/-- Change the counters. -/
def count (f : Statistics → Statistics) : Change Solver Unit :=
  modify fun s => { s with engine := { s.engine with statistics := f s.engine.statistics } }

/-- Change the number of variables of both halves of the store. -/
def resize (vars : Nat) : Change Solver Unit := do
  if Variable.limit < vars then
    Change.refuse (.tooManyVariables vars)
  let present := (← get).vars
  if present < vars then
    onStore (Store.onPhases (Phases.grow vars))
  else if vars < present then
    onStore (Store.onPhases (Phases.shrink vars))
  onStore (Store.onAssignment (Assignment.resize vars))

/-- Name the file that initial phases are to be loaded from. -/
def setInitPhaseFile (path : Path) : Change Solver Unit :=
  modify fun s => { s with initPhaseFile := some path }

/-- Close the window for initial phases. -/
def startSearch : Change Solver Unit :=
  modify fun s => { s with locked := true }

/-- Apply a hint, once and before any search. -/
def initPhases (h : Hint) : Change Solver Unit := do
  let s ← get
  if s.locked then
    Change.refuse .hintReapplied
  if h.size ≠ s.vars then
    Change.refuse (.hintLength h.size s.vars)
  onStore (Store.onPhases (Phases.apply h))
  startSearch

/-- Load and apply the file that was named, if one was. Its name is used up in any case. -/
def loadInitialPhases (read : Reader) : Change Solver (Option Hint.Summary) := do
  match (← get).initPhaseFile with
  | none => return none
  | some path =>
    modify fun s => { s with initPhaseFile := none }
    let hint ← Change.read fun s => (Hint.load read path s.vars).mapError .error
    initPhases hint
    return some hint.summary

end Solver

end Polarity
