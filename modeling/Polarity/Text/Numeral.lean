/-!
# Decimal numerals

Reading whole numbers that have to fit a range. A numeral is an optional sign and one or more
digits. It is read from left to right and the first problem found is the one reported: a character
that is no digit, or a value that has left the range, whichever comes first.
-/

namespace Polarity

/-- What is wrong with a numeral. -/
inductive NumeralError where
  | empty
  | invalidDigit
  | tooLarge
  | tooSmall
  deriving DecidableEq, Repr

/-- The text of a numeral error. -/
def NumeralError.text : NumeralError → String
  | empty => "cannot parse integer from empty string"
  | invalidDigit => "invalid digit found in string"
  | tooLarge => "number too large to fit in target type"
  | tooSmall => "number too small to fit in target type"

namespace Numeral

/-- The value of a decimal digit. -/
def digit? (c : Char) : Option Nat :=
  if c.isDigit then some (c.toNat - '0'.toNat) else none

/-- The value of a run of digits. -/
def value (digits : List Char) : Nat :=
  digits.foldl (fun sum c => 10 * sum + (digit? c).getD 0) 0

/-- Read the longest run of digits: the run, and what is left. -/
def readDigits (text : List Char) : List Char × List Char :=
  (text.takeWhile Char.isDigit, text.dropWhile Char.isDigit)

/-- Read on from the value `sum`; a value beyond `limit` is reported as `beyond`. -/
def accumulate (limit : Nat) (beyond : NumeralError) (sum : Nat) :
    List Char → Except NumeralError Nat
  | [] => .ok sum
  | c :: rest =>
    match digit? c with
    | none => .error .invalidDigit
    | some d =>
      if 10 * sum + d ≤ limit then accumulate limit beyond (10 * sum + d) rest else .error beyond

/-- Read the digits that follow a sign. -/
def magnitude (limit : Nat) (beyond : NumeralError) (digits : List Char) :
    Except NumeralError Nat :=
  if digits.isEmpty then .error .invalidDigit else accumulate limit beyond 0 digits

/-- Read a natural number up to `limit`. A plus sign may stand before it. -/
def natural (limit : Nat) : List Char → Except NumeralError Nat
  | [] => .error .empty
  | '+' :: digits => magnitude limit .tooLarge digits
  | digits => magnitude limit .tooLarge digits

/-- Read a number from `-(limit + 1)` to `limit`. A sign may stand before it. -/
def signed (limit : Nat) : List Char → Except NumeralError Int
  | [] => .error .empty
  | '-' :: digits => (magnitude (limit + 1) .tooSmall digits).map fun n => -(n : Int)
  | '+' :: digits => (magnitude limit .tooLarge digits).map fun n => (n : Int)
  | digits => (magnitude limit .tooLarge digits).map fun n => (n : Int)

/-- The largest number of 64 bits without a sign. -/
def word : Nat := 0xFFFFFFFFFFFFFFFF

/-- The largest number of 32 bits with a sign. -/
def int32 : Nat := 0x7FFFFFFF

end Numeral

end Polarity
