import Polarity.Controller
import Polarity.Solver.Task

/-!
# Solvers and a controller in one process

A process can hold any number of solvers and has one controller. Each solver gets a serial number
when it is created. Its engine stays when the solver is gone, as others can still refer to it by
that number.

**Events.** An `Event` is one thing that happens in the process, from inside or from outside.
`Host.step` says what it answers and what it changes, so that a statement about every history of a
process is a statement about lists of events.
-/

namespace Polarity

/-- A solver in use, or the engine that a solver has left behind. -/
inductive Seat where
  | active (s : Solver)
  | retired (e : Engine)
  deriving DecidableEq, Repr

namespace Seat

/-- The engine of a seat. -/
def engine : Seat → Engine
  | active s => s.engine
  | retired e => e

/-- The solver of a seat, if it is in use. -/
def solver? : Seat → Option Solver
  | active s => some s
  | retired _ => none

/-- The seat with another engine. -/
def withEngine (e : Engine) : Seat → Seat
  | active s => active { s with engine := e }
  | retired _ => retired e

/-- The seat after its solver is gone. -/
def retire (seat : Seat) : Seat := retired seat.engine

end Seat

/-- The solvers of a process by serial number, and its controller. -/
structure Host where
  seats : List Seat := []
  controller : Controller := {}
  deriving DecidableEq, Repr, Inhabited

namespace Host

/-- The engine with a serial number. -/
def engine? (h : Host) (id : Nat) : Option Engine := h.seats[id]?.map Seat.engine

/-- The solver with a serial number, if it is in use. -/
def solver? (h : Host) (id : Nat) : Option Solver := h.seats[id]?.bind Seat.solver?

/-- An engine has been asked to stop. -/
def terminated (h : Host) (id : Nat) : Bool := (h.engine? id).any (·.terminated)

/-- The state of the controller. -/
def state (h : Host) : Controller.State := h.controller.state h.terminated

/-- Change what is at a serial number. -/
def update (id : Nat) (f : Seat → Seat) (h : Host) : Host :=
  { h with seats := h.seats.modify id f }

/-- Do something with an engine, if there is one. -/
def withEngine {α : Type} (id : Nat) (f : Engine → α × Engine) (h : Host) : Option α × Host :=
  match h.engine? id with
  | none => (none, h)
  | some e =>
    let (answer, e) := f e
    (some answer, h.update id (·.withEngine e))

/-- One thing that happens in the process. -/
inductive Event where
  | create (options : Options)
  | perform (id : Nat) (task : Solver.Task)
  | terminate (id : Nat)
  | onAlarm (ignore : Bool) (id : Nat)
  | arm (id : Nat) (timeout : Option Nat)
  | disarm
  | teardown (id : Nat)
  | release (id : Nat)
  | alarm
  | signal (s : Signal)
  deriving DecidableEq, Repr

/-- What an event answers: nothing, that there is no such solver, the number of a new solver, the
answer of a task, whether a flag was set by this request, whether an alarm is scheduled, that
nobody handles the signal, or how the process ended. -/
inductive Reply where
  | done
  | absent
  | created (id : Nat)
  | performed (result : Except Failure Solver.Reply)
  | flag (first : Bool)
  | scheduled (pending : Bool)
  | refused (reason : Failure)
  | unhandled
  | killed (death : Death)

/-- A request to an engine: whether it set the flag. -/
def request (id : Nat) (f : Engine → Bool × Engine) (h : Host) : Reply × Host :=
  match h.withEngine id f with
  | (some first, h) => (.flag first, h)
  | (none, h) => (.absent, h)

/-- Let an event happen; `read` gives the contents of files. -/
def step (read : Reader) (h : Host) : Event → Reply × Host
  | .create options =>
    (.created h.seats.length, { h with seats := h.seats ++ [.active (.ofOptions options)] })
  | .perform id task =>
    match h.solver? id with
    | none => (.absent, h)
    | some s =>
      let ended := (Solver.perform read task).carry s
      (.performed ended.result, h.update id fun _ => .active ended.state)
  | .terminate id => h.request id Engine.terminate
  | .onAlarm ignore id => h.request id (Engine.onAlarm ignore)
  | .arm id timeout =>
    match h.engine? id with
    | none => (.absent, h)
    | some _ =>
      let ended := (Controller.arm id timeout).carry h.controller
      match ended.result with
      | .ok () =>
        (.scheduled ended.state.scheduled, { h with controller := ended.state })
      | .error reason => (.refused reason, { h with controller := ended.state })
  | .disarm => (.scheduled false, { h with controller := h.controller.disarm })
  | .teardown id =>
    (.scheduled false, { h.update id Seat.retire with controller := h.controller.teardown })
  | .release id => (.done, h.update id Seat.retire)
  | .alarm =>
    match h.controller.alarm with
    | none => (.unhandled, h)
    | some id => h.request id (Engine.onAlarm h.controller.ignoreAlarm)
  | .signal s =>
    match h.controller.handlerOf? s with
    | none => (.unhandled, h)
    | some id =>
      match h.withEngine id s.handle with
      | (some death, h) => (.killed death, h)
      | (none, h) => (.unhandled, h)

/-- Let events happen one after the other, from a process without solvers. -/
def run (read : Reader) (events : List Event) : Host :=
  events.foldl (fun h e => (h.step read e).2) {}

end Host

end Polarity
