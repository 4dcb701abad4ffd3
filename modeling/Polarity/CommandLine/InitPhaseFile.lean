import Polarity.CommandLine.Arguments
import Polarity.Directory.Path

/-!
# The argument that names a hint file

The hint file is named by an argument that is taken out before the other arguments are looked at,
wherever it stands. It is recognised only if all of it is text. Of several the last one counts.
-/

namespace Polarity.InitPhaseFile

/-- How the argument starts. -/
def flag : String := "--init-phase-file="

/-- The path that an argument names, if it is such an argument. -/
def path? (a : Argument) : Option Path :=
  let start := Utf8.encode flag
  if (Utf8.decode a).isSome && start.isPrefixOf a then some ⟨a.drop start.length⟩ else none

/-- The path named by the arguments, and the arguments that are left. -/
def extract (arguments : List Argument) : Option Path × List Argument :=
  ((arguments.filterMap path?).getLast?, arguments.filter fun a => (path? a).isNone)

end Polarity.InitPhaseFile
