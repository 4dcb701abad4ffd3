import Polarity.Formula.Dimacs
import Polarity.Host

/-!
# Sessions

A session is a process under the hand of one user, who works with one solver at a time and holds on
to the last handle taken of a solver, together with options for new solvers.

A session ends when a fatal signal is handled.
-/

namespace Polarity

/-- A process, the solver in use, the solver of the last handle taken, and the options for new
solvers. -/
structure Session where
  host : Host
  current : Option Nat
  handle : Option Nat
  options : Options
  deriving DecidableEq, Repr

namespace Session

/-- A new session with one solver. -/
def start (options : Options) : Session where
  host := { seats := [.active (.ofOptions options)] }
  current := some 0
  handle := none
  options := options

/-- The solver in use. -/
def solver? (s : Session) : Option Solver := s.current.bind s.host.solver?

/-- Whether the engine of the last handle was asked to stop, if a handle was taken. -/
def handleTerminated? (s : Session) : Option Bool := s.handle.map s.host.terminated

/-- What a user can ask of the solver in use. -/
inductive Request where
  | perform (task : Solver.Task)
  | search (formula : String)
  | terminate
  | onAlarm (ignore : Bool)
  | takeHandle
  | arm (timeout : Option Nat)
  | teardown
  | release
  | message (text : String)
  | printStatistics
  | showOptions
  deriving DecidableEq, Repr

/-- What a user can do. -/
inductive Command where
  | create
  | disarm
  | raiseAlarm
  | terminateHandle
  | signal (s : Signal)
  | request (r : Request)
  deriving DecidableEq, Repr

/-- Why a command was not carried out. -/
inductive Refusal where
  | noSolver
  | noHandle
  | notArmed
  deriving DecidableEq, Repr

/-- What a command answers. -/
inductive Reply where
  | refused (reason : Refusal)
  | unreadable (cause : Formula.DimacsError)
  | output (text : String)
  | statistics (s : Statistics)
  | options (o : Options)
  | host (r : Host.Reply)

/-- Let an event happen in the process. -/
def event (read : Reader) (e : Host.Event) (s : Session) : Host.Reply × Session :=
  let (reply, host) := s.host.step read e
  (reply, { s with host })

/-- Let an event happen in the process and pass its answer on. -/
def forward (read : Reader) (e : Host.Event) (s : Session) : Reply × Session :=
  let (reply, s) := s.event read e
  (.host reply, s)

/-- Carry out a request to the solver in use, which has the serial number `id`. -/
def serve (read : Reader) (s : Session) (id : Nat) (solver : Solver) :
    Request → Reply × Session
  | .perform task => s.forward read (.perform id task)
  | .search text =>
    match Formula.parse text with
    | .error cause => (.unreadable cause, s)
    | .ok formula => s.forward read (.perform id (.search formula))
  | .terminate => s.forward read (.terminate id)
  | .onAlarm ignore => s.forward read (.onAlarm ignore id)
  | .takeHandle => (.host .done, { s with handle := some id })
  | .arm timeout =>
    match s.event read (.arm id timeout) with
    | (.scheduled pending, s) => (.host (.scheduled pending), { s with handle := some id })
    | (reply, s) => (.host reply, s)
  | .teardown => { s with current := none }.forward read (.teardown id)
  | .release => { s with current := none }.forward read (.release id)
  | .message text => (.output (solver.options.message text), s)
  | .printStatistics => (.statistics solver.engine.statistics, s)
  | .showOptions => (.options solver.options, s)

/-- Carry out a command. A new solver takes the place of the one in use. -/
def step (read : Reader) (s : Session) : Command → Reply × Session
  | .create =>
    let s := match s.current with
      | none => s
      | some id => (s.event read (.release id)).2
    let (_, next) := s.event read (.create s.options)
    (.host .done, { next with current := some s.host.seats.length })
  | .disarm => s.forward read .disarm
  | .raiseAlarm => (.host .done, (s.event read .alarm).2)
  | .terminateHandle =>
    match s.handle with
    | none => (.refused .noHandle, s)
    | some id => s.forward read (.terminate id)
  | .signal signal =>
    match s.event read (.signal signal) with
    | (.killed death, s) => (.host (.killed death), s)
    | (_, s) => (.refused .notArmed, s)
  | .request r =>
    match s.current, s.solver? with
    | some id, some solver => s.serve read id solver r
    | _, _ => (.refused .noSolver, s)

/-- The process has ended. -/
def Reply.isLast : Reply → Bool
  | .host (.killed _) => true
  | _ => false

/-- Carry out commands until there are no more or the process has ended: what each answers and
leaves behind. -/
def run (read : Reader) (s : Session) : List Command → List (Reply × Session)
  | [] => []
  | c :: later =>
    let (reply, next) := s.step read c
    (reply, next) :: if reply.isLast then [] else next.run read later

end Session

end Polarity
