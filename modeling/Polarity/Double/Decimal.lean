import Polarity.Double.Basic
import Polarity.Text.Numeral

/-!
# Reading doubles

The double nearest to a decimal numeral.

**Grammar.** A sign may stand first. Then follows one of the words `inf`, `infinity` and `nan`, in
any case, or a number: digits with a point before, between or after them or without one, and then
an exponent if there is one, with a sign if there is one.
-/

namespace Polarity.Double

/-- The double nearest to `digits * 10 ^ exponent`. Exponents far out of range are not computed
with: the result is then infinite or zero. -/
def ofDecimal (negative : Bool) (digits : Nat) (exponent : Int) : Double :=
  if digits = 0 then finite negative 0
  else
    let magnitude : Int := (toString digits).length + exponent
    if 310 < magnitude then infinite negative
    else if magnitude < -330 then finite negative 0
    else if 0 ≤ exponent then ofUnits negative (digits * Nat.pow 10 exponent.toNat * one) 1
    else ofUnits negative (digits * one) (Nat.pow 10 (-exponent).toNat)

/-- Read a sign, if there is one: whether it is a minus sign, and the rest. -/
def readSign : List Char → Bool × List Char
  | '-' :: rest => (true, rest)
  | '+' :: rest => (false, rest)
  | text => (false, text)

/-- Read an exponent, which has to be all there is, if there is anything. -/
def readExponent : List Char → Option Int
  | [] => some 0
  | c :: rest =>
    if c.toLower = 'e' then
      let (negative, digits) := readSign rest
      if digits.isEmpty || !digits.all Char.isDigit then none
      else
        let n : Int := Numeral.value digits
        some (if negative then -n else n)
    else none

/-- Read the digits after a point, if a point comes next. -/
def readFraction : List Char → List Char × List Char
  | '.' :: rest => Numeral.readDigits rest
  | text => ([], text)

/-- Read a number without a sign. -/
def readNumber (negative : Bool) (text : List Char) : Option Double := do
  let (whole, afterWhole) := Numeral.readDigits text
  let (fraction, afterFraction) := readFraction afterWhole
  if whole.isEmpty && fraction.isEmpty then none
  let exponent ← readExponent afterFraction
  return ofDecimal negative (Numeral.value (whole ++ fraction)) (exponent - fraction.length)

/-- Read a double. -/
def parse? (text : String) : Option Double :=
  let (negative, rest) := readSign text.toList
  let word := String.ofList (rest.map Char.toLower)
  if word = "inf" ∨ word = "infinity" then some (infinite negative)
  else if word = "nan" then some nan
  else readNumber negative rest

end Polarity.Double
