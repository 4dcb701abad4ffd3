import Polarity.Phase

/-!
# Solver options

What a user can choose about a run.
-/

namespace Polarity

/-- The choices for a run: leave out diagnostics, prefer target phases to saved ones, and the
phase of variables for which nothing is remembered. -/
structure Options where
  quiet : Bool := false
  target : Bool := true
  initialPhase : Phase := .positive
  deriving DecidableEq, Repr, Inhabited

/-- A diagnostic line, which a quiet run leaves out. -/
def Options.message (o : Options) (text : String) : String :=
  if o.quiet then "" else s!"c {text}\n"

end Polarity
