import Polarity.Statistics.Basic

/-!
# What a signal handler sees of a solver

The flag that asks a search to stop, and the counters. They outlive the solver they belong to as
long as somebody can still refer to them.

**The flag** is only ever set. The first request to stop says that it set the flag, later ones say
that it was set already. A guard in front of a request can make it do nothing.
-/

namespace Polarity

/-- The stop flag and the counters of a solver. -/
structure Engine where
  terminated : Bool := false
  statistics : Statistics := {}
  deriving DecidableEq, Repr, Inhabited

namespace Engine

/-- Ask the search to stop. The answer says whether this request set the flag. -/
def terminate (e : Engine) : Bool × Engine :=
  (!e.terminated, { e with terminated := true })

/-- Ask the search to stop when the time is up, unless the guard says that it is over already. -/
def onAlarm (ignore : Bool) (e : Engine) : Bool × Engine :=
  if ignore then (false, e) else e.terminate

end Engine

end Polarity
