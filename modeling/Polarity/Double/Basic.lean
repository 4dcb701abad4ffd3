/-!
# Doubles

Floating-point numbers of 64 bits, as exact values. A finite double is a whole number of *units*,
the unit being the smallest positive double, `2 ^ -1074`. All arithmetic is exact arithmetic on
natural numbers, followed by one rounding.

**Rounding.** A quotient of naturals is rounded to the nearest number of units that has 53
significant bits; of two that are equally near the even one is taken. From `2 ^ 1024` on the result
is infinite.
-/

namespace Polarity

/-- A floating-point number of 64 bits; a finite one is given in units of `2 ^ -1074`. -/
inductive Double where
  | nan
  | infinite (negative : Bool)
  | finite (negative : Bool) (units : Nat)
  deriving DecidableEq, Repr

namespace Double

/-- The number of units in one. -/
def one : Nat := Nat.pow 2 1074

/-- The first number of units that is too large. -/
def ceiling : Nat := Nat.pow 2 2098

/-- The quotient of two naturals to the nearest whole number, and to the even one of two. -/
def roundQuotient (num den : Nat) : Nat :=
  let q := num / den
  let r := num % den
  if 2 * r < den then q else if den < 2 * r then q + 1 else q + q % 2

/-- The place of the last significant bit of a number of units. -/
def lastBit (units : Nat) : Nat := units.log2 - 52

/-- The quotient of two naturals, rounded to 53 significant bits. -/
def nearest (num den : Nat) : Nat :=
  let scale := Nat.pow 2 (lastBit (num / den))
  roundQuotient num (den * scale) * scale

/-- The double nearest to a quotient of naturals, in units. -/
def ofUnits (negative : Bool) (num den : Nat) : Double :=
  let units := nearest num den
  if units < ceiling then finite negative units else infinite negative

/-- The double nearest to a natural number. -/
def ofNat (n : Nat) : Double := ofUnits false (n * one) 1

/-- The bit above the fraction, which is one in all but the smallest doubles and not stored. -/
def hiddenBit : Nat := 0x10000000000000

/-- The double with a bit pattern: a sign bit, eleven bits of exponent, and the fraction. -/
def ofBits (bits : UInt64) : Double :=
  let negative := bits.toNat >>> 63 = 1
  let exponent := (bits.toNat >>> 52) % 0x800
  let fraction := bits.toNat % hiddenBit
  if exponent = 2047 then
    if fraction = 0 then infinite negative else nan
  else if exponent = 0 then finite negative fraction
  else finite negative ((hiddenBit + fraction) * Nat.pow 2 (exponent - 1))

/-- The sign bit of a product. -/
def crossSign (a b : Bool) : Bool := a != b

/-- The product of two doubles. -/
def mul : Double → Double → Double
  | finite s a, finite t b => ofUnits (crossSign s t) (a * b) one
  | infinite s, infinite t => infinite (crossSign s t)
  | infinite s, finite t b => if b = 0 then nan else infinite (crossSign s t)
  | finite s a, infinite t => if a = 0 then nan else infinite (crossSign s t)
  | nan, _ => nan
  | _, nan => nan

/-- The double is a number and no infinity. -/
def isFinite : Double → Bool
  | finite _ _ => true
  | _ => false

/-- The double is greater than zero. -/
def isPositive : Double → Bool
  | finite negative units => !negative && 0 < units
  | infinite negative => !negative
  | nan => false

/-- The double is zero or greater; both zeros are. -/
def isNonnegative : Double → Bool
  | finite negative units => !negative || units == 0
  | infinite negative => !negative
  | nan => false

/-- The least natural number that is not less than the double, but `limit` at most. What is not
greater than zero, or no number, gives zero. -/
def ceilNat (limit : Nat) : Double → Nat
  | finite false units => min limit ((units + (one - 1)) / one)
  | infinite false => limit
  | _ => 0

end Double

end Polarity
