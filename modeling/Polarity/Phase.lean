/-!
# Phases

A *phase* is the sign that a literal has, or that is remembered for a variable: positive,
negative, or unset. One type serves the assignment, the stored phases and the hints, so that a
remembered phase is a copy of an assigned value.

**Spellings.** A phase is written in three ways: with a sign in diagnostics (`text`), as one
character in a hint file (`mark`), and as a number (`toInt`).
-/

namespace Polarity

/-- The sign of a literal, or the sign remembered for a variable. -/
inductive Phase where
  | negative
  | unset
  | positive
  deriving DecidableEq, Repr

namespace Phase

instance : Inhabited Phase := ⟨.unset⟩

/-- Positive or negative. -/
def isSet : Phase → Bool
  | unset => false
  | _ => true

/-- The truth value of a phase, if it is set. -/
def toBool? : Phase → Option Bool
  | negative => some false
  | unset => none
  | positive => some true

/-- The phase of a truth value. -/
def ofBool : Bool → Phase
  | false => negative
  | true => positive

/-- The opposite phase; an unset phase is its own opposite. -/
protected def neg : Phase → Phase
  | negative => positive
  | unset => unset
  | positive => negative

instance : Neg Phase := ⟨Phase.neg⟩

/-- The phase as a number: `-1`, `0` or `1`. -/
def toInt : Phase → Int
  | negative => -1
  | unset => 0
  | positive => 1

/-- The phase as diagnostics write it. -/
def text : Phase → String
  | negative => "-1"
  | unset => "d"
  | positive => "+1"

/-- The phase as one character of a hint file. -/
def mark : Phase → Char
  | negative => '0'
  | unset => 'd'
  | positive => '1'

/-- The phase in words. -/
def name : Phase → String
  | negative => "Negative"
  | unset => "Unset"
  | positive => "Positive"

/-- What is left of a stored phase when `value` is written over it: an unset value writes
nothing. -/
def overlay (stored value : Phase) : Phase :=
  if value.isSet then value else stored

@[simp] theorem neg_negative : -negative = positive := rfl

@[simp] theorem neg_unset : -unset = unset := rfl

@[simp] theorem neg_positive : -positive = negative := rfl

@[simp] theorem neg_neg (p : Phase) : - -p = p := by cases p <;> rfl

@[simp] theorem isSet_neg (p : Phase) : (-p).isSet = p.isSet := by cases p <;> rfl

@[simp] theorem isSet_unset : unset.isSet = false := rfl

@[simp] theorem isSet_ofBool (b : Bool) : (ofBool b).isSet = true := by cases b <;> rfl

theorem isSet_eq_false_iff {p : Phase} : p.isSet = false ↔ p = unset := by
  cases p <;> simp [isSet]

end Phase

end Polarity
