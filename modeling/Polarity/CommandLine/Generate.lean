import Polarity.CommandLine.Exit
import Polarity.Directory.Basic
import Polarity.Double.Decimal
import Polarity.Prediction.Generate

/-!
# The generator program

Makes a hint file of a file of predictions. When it fails it prints what went wrong and what lies
behind it, and writes no file.
-/

namespace Polarity.Generate

/-- What the arguments ask for. -/
structure Settings where
  input : Path
  output : Path
  fraction : Option Double
  deriving DecidableEq, Repr

/-- The options of the program. -/
def switches : List Switch :=
  [{ name := "input", short := some 'i' },
    { name := "output", short := some 'o' },
    { name := "topk" }]

/-- The double that an argument spells. -/
def double? (a : Argument) : Option Double := do
  Double.parse? (← Utf8.decode a)

/-- Read the arguments. -/
def Settings.ofArguments? (arguments : List Argument) : Option Settings := do
  let found ← Switch.scan? switches none arguments
  if !(Switch.positionals found).isEmpty then none
  let input ← (← Switch.value? "input" found).bind Argument.path?
  let output ← (← Switch.value? "output" found).bind Argument.path?
  let fraction ← (← Switch.value? "topk" found).mapM double?
  return { input, output, fraction }

/-- The lines for the causes of a failure. Several causes are numbered. -/
def causeLines : List String → List String
  | [] => []
  | [cause] => ["", "Caused by:", "    " ++ cause]
  | causes =>
    "" :: "Caused by:" :: causes.mapIdx fun n cause => s!"    {n}: {cause}"

/-- What is printed about a failure. -/
def failureText : List String → String
  | [] => ""
  | outermost :: causes =>
    String.join ((("Error: " ++ outermost) :: causeLines causes).map (· ++ "\n"))

/-- How the program ends after a failure. -/
def failureExit (failure : Generated.FileFailure) : Exit :=
  match failure.fault? with
  | some _ => { code := Exit.crash }
  | none => { code := Exit.failure, errors := failureText failure.chain }

/-- How the program ends when the hint file is written. -/
def successExit (output : Path) (g : Generated) : Exit where
  code := 0
  output := s!"wrote '{output.text}' ({g.size} entries)\n"
  errors := if 0 < g.skipped then s!"skipped {g.skipped} invalid predictions\n" else ""

/-- Run the program in a directory: how it ends, and the directory after it. -/
def inDirectory (d : Directory) (arguments : List Argument) : Exit × Directory :=
  match Settings.ofArguments? arguments with
  | none => (.usage, d)
  | some s =>
    match Generated.toFile s.input s.output s.fraction d with
    | .ok g written => (successExit s.output g, written)
    | .error failure left => (failureExit failure, left)

end Polarity.Generate
