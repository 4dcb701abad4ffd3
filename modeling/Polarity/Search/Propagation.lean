import Polarity.Formula.Basic
import Polarity.Search.Trail

/-!
# Unit propagation

A clause of which no literal is true and all but one are false makes the last one true.
Propagation looks at the clauses in order, again and again, until a pass changes nothing or a
clause has only false literals.

**Occurrences count.** A free literal that stands in a clause twice is not the only one left of it.
A clause is looked at only up to its first true literal.

**Passes.** Each pass but the last assigns a variable, so there is at most one more pass than free
variables; `propagate` is given that many.
-/

namespace Polarity

/-- What a clause amounts to under an assignment: it has a true literal, all are false, one
occurrence is free and all others are false, or more are free. -/
inductive ClauseStatus where
  | satisfied
  | falsified
  | unit (lit : Literal)
  | undecided
  deriving DecidableEq, Repr

/-- Look at the literals of a clause from left to right. -/
def Clause.status (a : Assignment) : Clause → Except Failure ClauseStatus
  | [] => return .falsified
  | l :: later => do
    match ← a.value l with
    | .positive => return .satisfied
    | .negative => status a later
    | .unset =>
      match ← status a later with
      | .satisfied => return .satisfied
      | .falsified => return .unit l
      | _ => return .undecided

/-- How a pass over the clauses ended. -/
inductive Pass where
  | conflict
  | settled
  | changed
  deriving DecidableEq, Repr

namespace Search

/-- Pass over clauses and draw their unit conclusions as they come up. -/
def pass : List Clause → Change Search Pass
  | [] => return .settled
  | c :: later => do
    match ← Change.read fun s => Clause.status s.assignment c with
    | .falsified => return .conflict
    | .unit l =>
      onSolver (Solver.count .propagate)
      push l .implied
      match ← pass later with
      | .conflict => return .conflict
      | _ => return .changed
    | _ => pass later

/-- Pass over clauses until nothing changes, `bound` times at most. The answer is `false` on a
conflict. -/
def passes (clauses : List Clause) : Nat → Change Search Bool
  | 0 => Change.abort .searchUnfinished
  | bound + 1 => do
    match ← pass clauses with
    | .conflict => return false
    | .settled => return true
    | .changed => passes clauses bound

/-- The number of variables that have no value. -/
def free (s : Search) : Nat := s.assignment.vars - s.assignment.assigned

/-- Draw unit conclusions until there are none left. The answer is `false` on a conflict. -/
def propagate (clauses : List Clause) : Change Search Bool := do
  passes clauses ((← get).free + 1)

end Search

end Polarity
