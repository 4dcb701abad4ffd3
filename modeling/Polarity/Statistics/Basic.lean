import Polarity.Statistics.Buffer

/-!
# Search statistics

Counters of what a search has done. They are words of 64 bits and count on from zero after the
largest word.

**Two printers.** `text` is the report that is printed at the end of a run. `signalText` is what is
printed from inside a signal handler: the same pieces, put through a buffer of fixed size.
-/

namespace Polarity

/-- How often a search has decided a variable, met a conflict, and drawn a unit conclusion. -/
structure Statistics where
  decisions : UInt64 := 0
  conflicts : UInt64 := 0
  propagations : UInt64 := 0
  deriving DecidableEq, Repr, Inhabited

namespace Statistics

/-- Count a decision. -/
def decide (s : Statistics) : Statistics := { s with decisions := s.decisions + 1 }

/-- Count a conflict. -/
def conflict (s : Statistics) : Statistics := { s with conflicts := s.conflicts + 1 }

/-- Count a unit conclusion. -/
def propagate (s : Statistics) : Statistics := { s with propagations := s.propagations + 1 }

/-- The columns that a counter is written in, from the right. -/
def columns : Nat := 12

/-- The pieces of the line for one counter. -/
def line (label : String) (count : UInt64) : List String :=
  let digits := toString count.toNat
  label :: List.replicate (columns - digits.length) " " ++ [digits, "\n"]

/-- The pieces of the report. -/
def pieces (s : Statistics) : List String :=
  line "c decisions:    " s.decisions ++ line "c conflicts:    " s.conflicts ++
    line "c propagations: " s.propagations

/-- The report of the counters. -/
def text (s : Statistics) : String := String.join s.pieces

/-- The report as a signal handler prints it. -/
def signalText (s : Statistics) : String := Buffer.print s.pieces

end Statistics

end Polarity
