import Polarity.Failure
import Polarity.Text.Numeral

/-!
# Numbers for literals

In the DIMACS format a literal is a number other than zero: the variable counted from one, with
the literal's sign. The numbers are 32-bit, so `Variable.limit` variables have them.

A variable kept in 32 bits can be larger. Its number is then counted on from the low end of the
signed range, and the one variable at the upper end of that range has no number at all.
-/

namespace Polarity

/-- The variable with an index, if its literals can be numbered. -/
def Variable.ofIndex (index : Nat) : Except Failure Variable :=
  if index < limit then .ok ⟨index⟩ else .error (.fault (.variableTooLarge index))

namespace Literal

/-- The literal with a number. Zero stands for the end of a clause and for no literal. -/
def ofDimacs (number : Int) : Except Failure Literal :=
  if number = 0 then .error (.fault .zeroLiteral)
  else .ok ⟨⟨number.natAbs - 1⟩, 0 < number⟩

/-- The number of a literal. -/
def toDimacs (l : Literal) : Except Failure Int :=
  let number := Int.bmod l.var.index 0x100000000 + 1
  if number ≤ Numeral.int32 then .ok (if l.positive then number else -number)
  else .error (.fault .overflow)

end Literal

end Polarity
