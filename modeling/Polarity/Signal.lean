import Polarity.Solver.Engine

/-!
# Fatal signals

The signals that end the process. Their handler asks the search to stop, prints the counters
between two lines that name the signal, and lets the signal take its course.

All text goes through a buffer of fixed size, since a handler may not allocate.
-/

namespace Polarity

/-- A signal on which the counters are printed before the process ends. -/
inductive Signal where
  | abort
  | interrupt
  | terminate
  deriving DecidableEq, Repr

/-- How a process ended: by a signal, after its handler had printed something. -/
structure Death where
  output : String
  signal : Signal
  deriving DecidableEq, Repr

namespace Signal

/-- The number of a signal. -/
def number : Signal → Nat
  | abort => 6
  | interrupt => 2
  | terminate => 15

/-- All fatal signals, in the order in which their handlers are installed. -/
def fatal : List Signal := [abort, interrupt, terminate]

/-- The fatal signal with a number. -/
def ofNumber? (n : Nat) : Option Signal := fatal.find? fun s => s.number == n

/-- One line about a signal. -/
def line (label : String) (s : Signal) : String :=
  Buffer.print [label, toString s.number, "\n"]

/-- What the handler does for the engine it was installed for. -/
def handle (s : Signal) (e : Engine) : Death × Engine :=
  let e := e.terminate.2
  let output :=
    line "c caught signal " s ++ e.statistics.signalText ++ line "c raising signal " s
  (⟨output, s⟩, e)

end Signal

end Polarity
