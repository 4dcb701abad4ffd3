import Polarity.Search.Propagation

/-!
# The search

Depth-first search with unit propagation and chronological backtracking. Each round propagates;
after a conflict it goes back to the latest open decision, and otherwise it decides the first free
variable, with the sign that the stored phases suggest.

**Bound.** A search over `f` free variables walks a binary tree of at most `2 ^ f` leaves, and each
round makes or flips a decision, so it ends within `2 ^ (f + 1) - 1` rounds. `rounds k` carries out
up to `2 ^ k` rounds by doing twice what `rounds (k - 1)` does.
-/

namespace Polarity

/-- The result of a search: a model, the absence of models, or that it was stopped. -/
inductive Outcome where
  | sat (model : List Literal)
  | unsat
  | unknown
  deriving DecidableEq, Repr

namespace Outcome

/-- The exit code that stands for a result. -/
def exitCode : Outcome → Nat
  | sat _ => 10
  | unsat => 20
  | unknown => 0

/-- The word that stands for a result. -/
def status : Outcome → String
  | sat _ => "SATISFIABLE"
  | unsat => "UNSATISFIABLE"
  | unknown => "UNKNOWN"

/-- The model, if there is one. -/
def model? : Outcome → Option (List Literal)
  | sat model => some model
  | _ => none

end Outcome

/-- The literals that are true under an assignment of all variables, in the order of the
variables. -/
def Assignment.model (a : Assignment) : List Literal :=
  a.varValues.mapIdx fun i p => ⟨⟨i⟩, p == .positive⟩

namespace Search

/-- Decide a variable with the sign that the stored phases suggest. -/
def decide (v : Variable) : Change Search Unit := do
  let phase ← Change.read fun s =>
    s.solver.store.phases.decisionPhase v s.solver.options.target s.solver.options.initialPhase
  onSolver (Solver.count .decide)
  push ⟨v, phase ≠ .negative⟩ .decided

/-- One round of the search. The answer is its result, if this is the last round. -/
def round (clauses : List Clause) : Change Search (Option Outcome) := do
  if (← get).solver.engine.terminated then
    return some .unknown
  if ← propagate clauses then
    match (← get).assignment.firstUnassigned with
    | none => return some (.sat (← get).assignment.model)
    | some v =>
      decide v
      return none
  else
    onSolver (Solver.count .conflict)
    savePhases
    if ← backtrack then return none
    else return some .unsat

/-- Carry out rounds until a result is there, `2 ^ k` of them at most. -/
def rounds (clauses : List Clause) : Nat → Change Search (Option Outcome)
  | 0 => round clauses
  | k + 1 => do
    match ← rounds clauses k with
    | some outcome => return some outcome
    | none => rounds clauses k

/-- Search until a result is there. -/
def finish (clauses : List Clause) : Change Search Outcome := do
  match ← rounds clauses ((← get).free + 1) with
  | some outcome => return outcome
  | none => Change.abort .searchUnfinished

end Search

/-- Search for a model of a formula that has as many variables as the solver. Values that
variables have already are kept. -/
def Solver.search (f : Formula) : Change Solver Outcome := do
  Change.ensure ((← get).vars = f.vars) .solverNotSized
  startSearch
  Change.on (fun s => { solver := s : Search }) (fun _ t => t.solver) (Search.finish f.clauses)

end Polarity
