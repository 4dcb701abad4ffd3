import Polarity.Failure
import Polarity.Signal

/-!
# The termination controller

A controller installs the handlers that stop a solver from outside: one for each fatal signal, and
one for the alarm that ends the time allowed. The handlers act on the engine they were installed
for, which is known by its serial number.

**Life of a controller.** It is *idle* until it is armed with an engine. It is then *armed*, or
*triggered* once that engine has been asked to stop. Disarming takes the handlers away and leaves it
*finalizing* until the engine is let go and it is idle again.

**A late alarm.** Disarming cancels the alarm and takes its handler away, and it sets a guard that
makes the handler do nothing, so that an alarm that comes late does no harm.
-/

namespace Polarity

/-- Where a controller is in its life. -/
inductive Controller.State where
  | idle
  | armed
  | triggered
  | finalizing
  deriving DecidableEq, Repr

/-- The name of a state. -/
def Controller.State.name : Controller.State → String
  | idle => "Idle"
  | armed => "Armed"
  | triggered => "Triggered"
  | finalizing => "Finalizing"

/-- A controller: the engine it was armed with, the guard in front of the alarm's handler, the
handlers installed with the engine of each, whether an alarm is scheduled, and whether it was
disarmed since it was armed. -/
structure Controller where
  handle : Option Nat := none
  ignoreAlarm : Bool := false
  handlers : List (Signal × Nat) := []
  alarm : Option Nat := none
  scheduled : Bool := false
  finalizing : Bool := false
  deriving DecidableEq, Repr, Inhabited

namespace Controller

/-- The state of a controller, given which engines have been asked to stop. -/
def state (terminated : Nat → Bool) (c : Controller) : State :=
  match c.handle with
  | none => .idle
  | some engine =>
    if c.finalizing then .finalizing
    else if terminated engine then .triggered
    else .armed

/-- A time limit in milliseconds schedules an alarm. Alarms count in seconds, and nothing is
scheduled for less than one. -/
def schedules (timeout : Option Nat) : Bool :=
  timeout.any fun ms => 0 < ms / 1000

/-- Install the handlers for an engine and schedule an alarm if there is a time limit. -/
def arm (engine : Nat) (timeout : Option Nat) : Change Controller Unit := do
  Change.ensure ((← get).handle = none) .controllerActive
  modify fun c => { c with
    handle := some engine
    ignoreAlarm := false
    handlers := c.handlers ++ Signal.fatal.map fun s => (s, engine)
    alarm := some engine
    scheduled := c.scheduled || schedules timeout }

/-- Take all handlers away and make a late alarm harmless. -/
def disarm (c : Controller) : Controller :=
  { c with
    ignoreAlarm := true
    handlers := []
    alarm := none
    scheduled := false
    finalizing := c.finalizing || c.handle.isSome }

/-- Take all handlers away and let the engine go. -/
def teardown (c : Controller) : Controller :=
  { c.disarm with handle := none, finalizing := false }

/-- The engine that the handler of a fatal signal acts on. -/
def handlerOf? (s : Signal) (c : Controller) : Option Nat :=
  c.handlers.lookup s

end Controller

end Polarity
