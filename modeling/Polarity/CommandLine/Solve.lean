import Polarity.CommandLine.Exit
import Polarity.CommandLine.InitPhaseFile
import Polarity.Directory.Basic
import Polarity.Formula.Dimacs
import Polarity.Json.Printer
import Polarity.Search.Run

/-!
# The solver program

Reads a formula, loads a hint file if one is named, searches, and prints the result; on request it
writes a report of the run to a file.

**What is printed.** Diagnostic lines start with `c` and are left out of a quiet run, the line of a
failure excepted. The result is a line that starts with `s`, and a model follows it in lines that
start with `v`.

**Stages.** `Invocation.run` does all that comes before the report and needs files only to read them.
`Run.exit` says how the program ends, given how writing the report went. `Solve.inDirectory` puts
them together.
-/

namespace Polarity.Solve

/-! ## Arguments -/

/-- What the arguments ask for, except the hint file. -/
structure Settings where
  input : Path
  timeout : Option Nat
  options : Options
  report : Option Path
  deriving DecidableEq, Repr

/-- The options of the program. -/
def switches : List Switch :=
  [{ name := "timeout-secs" },
    { name := "quiet", short := some 'q', takesValue := false },
    { name := "no-target", takesValue := false },
    { name := "initial-phase" },
    { name := "report" }]

/-- Read the arguments. -/
def Settings.ofArguments? (arguments : List Argument) : Option Settings := do
  let found ← Switch.scan? switches none arguments
  let input ← match Switch.positionals found with
    | [a] => a.path?
    | _ => none
  let timeout ← (← Switch.value? "timeout-secs" found).mapM Argument.word?
  let quiet ← Switch.flag? "quiet" found
  let noTarget ← Switch.flag? "no-target" found
  let initial ← (← Switch.value? "initial-phase" found).mapM Argument.bool?
  let report ← (← Switch.value? "report" found).mapM Argument.path?
  let initialPhase := Phase.ofBool (initial.getD true)
  return { input, timeout, options := { quiet, target := !noTarget, initialPhase }, report }

/-- What the program is asked for. -/
structure Invocation where
  settings : Settings
  initPhaseFile : Option Path
  deriving DecidableEq, Repr

/-- Read the arguments, after the one that names a hint file is taken out. -/
def Invocation.ofArguments? (arguments : List Argument) : Option Invocation := do
  let (initPhaseFile, rest) := InitPhaseFile.extract arguments
  return { settings := ← Settings.ofArguments? rest, initPhaseFile }

/-! ## The run -/

/-- Why a run failed. -/
inductive RunFailure where
  | formula (cause : Formula.LoadError)
  | solver (cause : Failure)
  deriving DecidableEq, Repr

/-- The texts of a failure, the outermost first. -/
def RunFailure.chain : RunFailure → List String
  | formula cause => cause.chain
  | solver (.error e) => e.chain
  | solver (.fault f) => [f.text]

/-- The fault behind a failure, if there is one. -/
def RunFailure.fault? : RunFailure → Option Fault
  | solver (.fault f) => some f
  | _ => none

/-- A solver at work and what has been printed so far. -/
structure Console where
  solver : Solver
  output : String := ""
  deriving DecidableEq, Repr

/-- A part of a run. What it has printed when it fails stays printed. -/
abbrev Program (α : Type) := EStateM RunFailure Console α

namespace Program

/-- Print a text. -/
def print (text : String) : Program Unit :=
  modify fun c => { c with output := c.output ++ text }

/-- Print a diagnostic line unless the run is quiet. -/
def message (text : String) : Program Unit := do
  print ((← get).solver.options.message text)

/-- Carry out a change of the solver. -/
def onSolver {α : Type} (change : Change Solver α) : Program α := fun c =>
  match change c.solver with
  | .ok a s => .ok a { c with solver := s }
  | .error e s => .error (.solver e) { c with solver := s }

/-- Go on with a formula, if there is one. -/
def formula (loaded : Except Formula.LoadError Formula) : Program Formula :=
  match loaded with
  | .ok f => pure f
  | .error cause => throw (.formula cause)

end Program

/-- The literals to a line of a model. -/
def literalsPerLine : Nat := 10

/-- Cut a list into parts of one length, the last of which may be shorter. -/
def chunks {α : Type} (size : Nat) (l : List α) : List (List α) :=
  (List.range ((l.length + (size - 1)) / size)).map fun i => (l.drop (i * size)).take size

/-- The lines of a model, and the line that ends it. -/
def modelText (numbers : List Int) : String :=
  let lines := (chunks literalsPerLine numbers).map fun l =>
    "v " ++ " ".intercalate (l.map toString) ++ "\n"
  String.join lines ++ "v 0\n"

/-- What is known after a search. -/
structure Solved where
  outcome : Outcome
  vars : Nat
  initPhase : Option Hint.Summary
  statistics : Statistics
  deriving DecidableEq, Repr

/-- Read the formula and the hint file, search, and print the result. -/
def program (read : Reader) (input : Path) : Program Solved := do
  let formula ← Program.formula (Formula.load read input)
  Program.message s!"parsed {formula.vars} variables and {formula.clauses.length} clauses"
  Program.onSolver (Solver.resize formula.vars)
  let initPhase ← Program.onSolver (Solver.loadInitialPhases read)
  if let some summary := initPhase then
    Program.message summary.text
  let outcome ← Program.onSolver (Solver.search formula)
  let solver := (← get).solver
  let statistics := solver.engine.statistics
  if !solver.options.quiet then
    Program.print statistics.text
  Program.print s!"s {outcome.status}\n"
  if let some model := outcome.model? then
    let numbers ← Program.onSolver (Change.read fun _ => model.mapM Literal.toDimacs)
    Program.print (modelText numbers)
  return { outcome, vars := solver.vars, initPhase, statistics }

/-- How far a run came before the report, and what it has printed. -/
structure Run where
  output : String
  result : Except RunFailure Solved
  deriving Repr

/-- Do all that comes before the report. -/
def Invocation.run (i : Invocation) (read : Reader) : Run :=
  let solver := { Solver.ofOptions i.settings.options with initPhaseFile := i.initPhaseFile }
  match program read i.settings.input { solver } with
  | .ok solved c => ⟨c.output, .ok solved⟩
  | .error e c => ⟨c.output, .error e⟩

/-! ## The report -/

/-- Why there is no full report. -/
inductive ReportFailure where
  | creating (path : Path) (cause : IoFault)
  | pathNotText
  deriving DecidableEq, Repr

/-- The texts of a failure, the outermost first. -/
def ReportFailure.chain : ReportFailure → List String
  | creating path cause => [s!"Failed to create report '{path.text}'", cause.text]
  | pathNotText => ["path contains invalid UTF-8 characters"]

/-- The summary of a hint in a report. Its path is text, as only text can name a hint file. -/
def summaryJson (s : Hint.Summary) : Json :=
  .object [("path", .text s.path.text), ("positive", .count s.positive),
    ("negative", .count s.negative), ("unset", .count s.unset), ("total", .count s.total)]

/-- The report of a run on an input whose path is this text. -/
def Solved.json (s : Solved) (input : String) : Json :=
  .object [("input", .text input), ("status", .text s.outcome.status), ("variables", .count s.vars),
    ("init_phase", (s.initPhase.map summaryJson).getD .null),
    ("statistics", .object [("decisions", .count s.statistics.decisions.toNat),
      ("conflicts", .count s.statistics.conflicts.toNat),
      ("propagations", .count s.statistics.propagations.toNat)])]

/-- What is written to the report file, and whether that is all of the report. A path that is not
text cannot be written, and the report ends where it should stand. -/
def Solved.report (s : Solved) (input : Path) : String × Except ReportFailure Unit :=
  match input.text? with
  | some text => ((s.json text).pretty 0, .ok ())
  | none => ("\x7b\n  \"input\": ", .error .pathNotText)

/-! ## The end -/

/-- The line that reports a failure. -/
def errorLine (chain : List String) : String :=
  "c error: " ++ ": ".intercalate chain ++ "\n"

/-- How the program ends, given how writing the report went. -/
def Run.exit (r : Run) (written : Except ReportFailure Unit) : Exit :=
  match r.result with
  | .error failure =>
    match failure.fault? with
    | some _ => { code := Exit.crash, output := r.output }
    | none => { code := Exit.failure, output := r.output ++ errorLine failure.chain }
  | .ok solved =>
    match written with
    | .ok () => { code := solved.outcome.exitCode, output := r.output }
    | .error failure => { code := Exit.failure, output := r.output ++ errorLine failure.chain }

/-- Run the program in a directory: how it ends, and the directory after it. -/
def inDirectory (d : Directory) (arguments : List Argument) : Exit × Directory :=
  match Invocation.ofArguments? arguments with
  | none => (.usage, d)
  | some i =>
    let run := i.run d.read
    match run.result, i.settings.report with
    | .ok solved, some path =>
      let (text, complete) := solved.report i.settings.input
      match d.write path (Utf8.encode text) with
      | .ok written => (run.exit complete, written)
      | .error cause => (run.exit (.error (.creating path cause)), d)
    | _, _ => (run.exit (.ok ()), d)

end Polarity.Solve
