import Polarity.Failure
import Polarity.Phase

/-!
# Hints

A *hint* proposes a phase for each variable, or leaves it open. It comes from a file and keeps the
path of that file for diagnostics. A *summary* counts its phases.
-/

namespace Polarity

/-- A proposed phase for each variable, and where the proposals come from. -/
structure Hint where
  path : Path
  phases : List Phase
  deriving DecidableEq, Repr

/-- How many phases of each kind a hint holds. -/
structure Hint.Summary where
  path : Path
  positive : Nat
  negative : Nat
  unset : Nat
  total : Nat
  deriving DecidableEq, Repr

namespace Hint

/-- The number of variables that a hint covers. -/
def size (h : Hint) : Nat := h.phases.length

/-- The hint covers no variable. -/
def isEmpty (h : Hint) : Bool := h.phases.isEmpty

/-- Count the phases of a hint. -/
def summary (h : Hint) : Summary where
  path := h.path
  positive := h.phases.count .positive
  negative := h.phases.count .negative
  unset := h.phases.count .unset
  total := h.size

/-- The line that reports a hint. -/
def Summary.text (s : Summary) : String :=
  s!"init-phase: parsed '{s.path.text}': +1={s.positive}, -1={s.negative}, d={s.unset} " ++
    s!"(total {s.total})"

end Hint

end Polarity
