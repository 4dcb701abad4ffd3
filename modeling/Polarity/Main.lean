import Polarity.CommandLine.Generate
import Polarity.CommandLine.Solve

/-!
# The command line

The first argument names the program, `solve` or `generate`; the others are its arguments. Files are
read before a program runs and written after it, so that all it does in between is a function of
their contents. A time limit is read and not enforced.
-/

namespace Polarity.CommandLine

/-- Why an operation on a file failed. -/
def faultOf : IO.Error → IoFault
  | .noFileOrDirectory .. => .notFound
  | .noSuchThing .. => .notFound
  | .inappropriateType _ code _ => if code = 21 then .isDirectory else .notDirectory
  | e => .other (toString e)

/-- Carry out an operation on a file. -/
def attempt {α : Type} (operation : IO α) : IO (Except IoFault α) := do
  try
    return .ok (← operation)
  catch e =>
    return .error (faultOf e)

/-- Read a file. A folder can be opened but not read. -/
def readFile (path : Path) : IO (Except ReadFailure (List UInt8)) := do
  match ← attempt (IO.FS.readBinFile path.text) with
  | .ok bytes => return .ok bytes.data.toList
  | .error .isDirectory => return .error (.reading .isDirectory)
  | .error cause => return .error (.opening cause)

/-- Write a file. -/
def writeFile (path : Path) (text : String) : IO (Except IoFault Unit) :=
  attempt (IO.FS.writeBinFile path.text text.toUTF8)

/-- Print what a program has printed, and end with its exit code. -/
def leave (exit : Exit) : IO UInt32 := do
  IO.print exit.output
  IO.eprint exit.errors
  return UInt32.ofNat exit.code

/-- Write the report of a run, if there is a result and a report is asked for. -/
def writeReport (i : Solve.Invocation) (run : Solve.Run) :
    IO (Except Solve.ReportFailure Unit) := do
  match run.result, i.settings.report with
  | .ok solved, some path =>
    let (text, complete) := solved.report i.settings.input
    match ← writeFile path text with
    | .ok () => return complete
    | .error cause => return .error (.creating path cause)
  | _, _ => return .ok ()

/-- Run the solver program. -/
def solve (arguments : List Argument) : IO UInt32 := do
  match Solve.Invocation.ofArguments? arguments with
  | none => leave .usage
  | some i =>
    let input ← readFile i.settings.input
    let hint ← match i.initPhaseFile with
      | some path => readFile path
      | none => pure (.ok [])
    let run := i.run fun path => if path = i.settings.input then input else hint
    leave (run.exit (← writeReport i run))

/-- Run the generator program. -/
def generate (arguments : List Argument) : IO UInt32 := do
  match Generate.Settings.ofArguments? arguments with
  | none => leave .usage
  | some s =>
    let input ← readFile s.input
    match Generated.ofFile (fun _ => input) s.input s.fraction with
    | .error failure => leave (Generate.failureExit failure)
    | .ok g =>
      match ← writeFile s.output g.text with
      | .ok () => leave (Generate.successExit s.output g)
      | .error cause => leave (Generate.failureExit (.writing s.output cause))

end Polarity.CommandLine

/-- Run the program that the first argument names. -/
def main : List String → IO UInt32
  | "solve" :: arguments => Polarity.CommandLine.solve (arguments.map Polarity.Utf8.encode)
  | "generate" :: arguments => Polarity.CommandLine.generate (arguments.map Polarity.Utf8.encode)
  | _ => Polarity.CommandLine.leave Polarity.Exit.usage
