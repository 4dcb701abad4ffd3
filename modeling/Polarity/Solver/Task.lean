import Polarity.Search.Run

/-!
# What can be asked of a solver

A `Task` is one operation on a solver as a value, and `Solver.perform` carries it out, so that a
statement about every history of a solver is a statement about lists of tasks.
-/

namespace Polarity.Solver

/-- One operation on a solver. -/
inductive Task where
  | resize (vars : Nat)
  | setInitPhaseFile (path : Path)
  | loadInitialPhases
  | initPhases (hint : String)
  | startSearch
  | search (formula : Formula)
  | call (c : Store.Call)
  deriving DecidableEq, Repr

/-- What a task answers. -/
inductive Reply where
  | done
  | summary (s : Option Hint.Summary)
  | outcome (o : Outcome)
  | store (r : Store.Reply)
  deriving DecidableEq, Repr

/-- Carry out a task; `read` gives the contents of files. -/
def perform (read : Reader) : Task → Change Solver Reply
  | .resize vars => do resize vars; return .done
  | .setInitPhaseFile path => do setInitPhaseFile path; return .done
  | .loadInitialPhases => do return .summary (← loadInitialPhases read)
  | .initPhases text => do
    let hint ← Change.read fun _ => Store.hintOf text
    initPhases hint
    return .done
  | .startSearch => do startSearch; return .done
  | .search formula => do return .outcome (← search formula)
  | .call c => do return .store (← onStore (Store.call c))

/-- Carry out tasks one after the other, those that fail included. -/
def run (read : Reader) (tasks : List Task) (s : Solver) : Solver :=
  tasks.foldl (fun s t => ((perform read t).carry s).state) s

end Polarity.Solver
