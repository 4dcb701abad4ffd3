import Polarity.Double.Basic

/-!
# The shortest text of a double

A double is written with the fewest digits that read back as the same double, and the nearest such
digits.

**Reading back.** The reals that round to a double form an interval around it: half the gap to the
next double on either side, the ends included if the last significant bit is zero. Below a power of
two the gap is half as wide as above it.

**Fewest digits.** The multiples of a power of ten form a grid. The coarsest grid that has a point
in the interval gives the digits, and if it has one there, then one of the two neighbours of the
double on that grid is such a point. Of two the nearer is taken, and the upper one if both are
equally near.

**Layout.** The digits are written out in full, never with an exponent.
-/

namespace Polarity.Double

/-- The interval of reals that round to a double, in quarters of a unit. -/
structure Interval where
  low : Nat
  high : Nat
  closed : Bool

/-- The interval around a positive number of units. -/
def Interval.around (units : Nat) : Interval :=
  let gap := Nat.pow 2 (lastBit units)
  let gapBelow := if 1 < gap ∧ units = Nat.pow 2 units.log2 then gap / 2 else gap
  { low := 4 * units - 2 * gapBelow
    high := 4 * units + 2 * gap
    closed := units / gap % 2 = 0 }

/-- The powers of ten whose multiples are tried, the greatest first: none greater is less than the
largest double, and multiples of the last one are closer together than doubles are. -/
def grids : List Int := (List.range 634).map fun (i : Nat) => 309 - (i : Int)

/-- The step of the grid of multiples of `10 ^ k`, in quarters of a unit, as a quotient. -/
def gridStep (k : Int) : Nat × Nat :=
  if 0 ≤ k then (Nat.pow 10 k.toNat * (4 * one), 1) else (4 * one, Nat.pow 10 (-k).toNat)

/-- The multiple of `10 ^ k` that is nearest to a number of units, of those in the interval. -/
def onGrid? (units : Nat) (k : Int) : Option Nat :=
  let i := Interval.around units
  let (num, den) := gridStep k
  let inside (j : Nat) : Bool :=
    if i.closed then i.low * den ≤ j * num && j * num ≤ i.high * den
    else i.low * den < j * num && j * num < i.high * den
  let value := 4 * units * den
  let j := value / num
  match inside j, inside (j + 1) with
  | true, true => some (if value - j * num < (j + 1) * num - value then j else j + 1)
  | true, false => some j
  | false, true => some (j + 1)
  | false, false => none

/-- The digits of a positive number of units, and the power of ten that they count. -/
def shortest (units : Nat) : Nat × Int :=
  (grids.findSome? fun k => (onGrid? units k).map fun j => (j, k)).getD (0, 0)

/-- Write `digits * 10 ^ exponent` without an exponent. -/
def positional (digits : Nat) (exponent : Int) : String :=
  let text := toString digits
  if 0 ≤ exponent then text ++ "".pushn '0' exponent.toNat
  else
    let places := (-exponent).toNat
    let padded := "".pushn '0' (places + 1 - text.length) ++ text
    let point := padded.length - places
    String.ofList (padded.toList.take point ++ '.' :: padded.toList.drop point)

/-- The text of a double. -/
def text : Double → String
  | nan => "NaN"
  | infinite negative => if negative then "-inf" else "inf"
  | finite negative units =>
    let magnitude :=
      if units = 0 then "0" else
        let (digits, exponent) := shortest units
        positional digits exponent
    if negative then "-" ++ magnitude else magnitude

end Polarity.Double
