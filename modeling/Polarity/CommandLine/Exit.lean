import Polarity.CommandLine.Arguments
import Polarity.Directory.Path
import Polarity.Text.Numeral

/-!
# How a program ends

What a command line program leaves behind besides files: its exit code and what it has printed.
The values of its options are read here too, where programs share the way.
-/

namespace Polarity

/-- The exit code of a program and what it has printed to its two outputs. -/
structure Exit where
  code : Nat
  output : String := ""
  errors : String := ""
  deriving DecidableEq, Repr

namespace Exit

/-- The arguments could not be understood. -/
def usage : Exit := { code := 2 }

/-- The exit code after an error. -/
def failure : Nat := 1

/-- The exit code after a fault. -/
def crash : Nat := 101

end Exit

namespace Argument

/-- The path that an argument names. No path is empty. -/
def path? (a : Argument) : Option Path := if a.isEmpty then none else some ⟨a⟩

/-- The number of 64 bits that an argument spells. -/
def word? (a : Argument) : Option Nat := do
  (Numeral.natural Numeral.word (← Utf8.decode a).toList).toOption

/-- The truth value that an argument spells. -/
def bool? (a : Argument) : Option Bool :=
  if a = Utf8.encode "true" then some true
  else if a = Utf8.encode "false" then some false
  else none

end Argument

end Polarity
