/-!
# JSON values

A value of the JSON data format. Numbers are told apart by how they are written: a *count* is a
whole number without sign, fraction and exponent that fits in 64 bits; any other number is kept as
its text.
-/

namespace Polarity

/-- A JSON value. The fields of an object are in the order in which they are written. -/
inductive Json where
  | null
  | bool (b : Bool)
  | count (n : Nat)
  | number (text : String)
  | text (s : String)
  | array (items : List Json)
  | object (fields : List (String × Json))
  deriving Repr, Inhabited

namespace Json

/-- The value of a field of an object. Of several fields of one name the last one counts. -/
def field? (name : String) : Json → Option Json
  | object fields => fields.reverse.lookup name
  | _ => none

/-- The number that a count stands for. -/
def toNat? : Json → Option Nat
  | count n => some n
  | _ => none

end Json

end Polarity
