import Polarity.Memory
import Polarity.Phase

/-!
# Assignments

The value of each literal of a fixed number of variables, and how many variables have one.

**Representation.** Each literal has a slot of its own (`Literal.slot`), so that its value is read
without a look at its sign. The slots of a literal and of its negation hold opposite phases, and
both are unset while the variable is free. The number of assigned variables is kept beside the
slots and changes with them.

**Main operations.** `assign` makes a literal true, `unassign` frees a variable and says what value
it had, `resize` frees the variables it cuts off. Each looks before it writes.
-/

namespace Polarity

/-- The values of the literals, one slot each, and the number of variables that have a value. -/
structure Assignment where
  slots : Array Phase := #[]
  assigned : Nat := 0
  deriving DecidableEq, Repr

namespace Assignment

/-- The assignment of no variables. -/
def empty : Assignment := {}

instance : Inhabited Assignment := ⟨empty⟩

/-- The number of variables. -/
def vars (a : Assignment) : Nat :=
  a.slots.size / 2

/-- The number of slots for so many variables, if there can be so many. -/
def slotsFor (vars : Nat) : Except Failure Nat :=
  (Memory.allow (2 * vars)).mapError .fault

/-- So many variables, all free. -/
def free (vars : Nat) : Except Failure Assignment := do
  let size ← slotsFor vars
  return { slots := Array.replicate size .unset }

/-- The phase in a slot. -/
def entry (a : Assignment) (slot : Nat) : Except Failure Phase :=
  match a.slots[slot]? with
  | some p => .ok p
  | none => .error (.fault .outOfRange)

/-- The value of a literal. -/
def value (a : Assignment) (l : Literal) : Except Failure Phase :=
  a.entry l.slot

/-- The value of the positive literal of a variable. -/
def varValue (a : Assignment) (v : Variable) : Except Failure Phase :=
  a.value ⟨v, true⟩

/-- The values of the positive literals, in the order of the variables. -/
def varValues (a : Assignment) : List Phase :=
  (List.range a.vars).map fun i => a.slots.getD (2 * i) .unset

/-- The first variable that has no value. -/
def firstUnassigned (a : Assignment) : Option Variable :=
  (a.varValues.findIdx? fun p => !p.isSet).map Variable.mk

/-- Write a phase into a slot. -/
def write (slot : Nat) (p : Phase) : Change Assignment Unit := do
  Change.ensure (slot < (← get).slots.size) .outOfRange
  modify fun a => { a with slots := a.slots.setIfInBounds slot p }

/-- Change the number of variables. The values of the variables that stay are kept, those that go
lose theirs, and new variables are free. -/
def resize (vars : Nat) : Change Assignment Unit := do
  let size ← Change.read fun _ => slotsFor vars
  let lost := ((← get).varValues.drop vars).countP Phase.isSet
  Change.ensure (lost ≤ (← get).assigned) .overflow
  modify fun a =>
    { slots := a.slots.extract 0 size ++ Array.replicate (size - a.slots.size) .unset
      assigned := a.assigned - lost }

/-- Make a literal true. Its variable must be free. -/
def assign (l : Literal) : Change Assignment Unit := do
  let present ← Change.read (·.value l)
  Change.ensure (present.isSet = false) (.alreadyAssigned l)
  write l.slot .positive
  write (-l).slot .negative
  modify fun a => { a with assigned := a.assigned + 1 }

/-- Free a variable. The answer is the value that it had. -/
def unassign (v : Variable) : Change Assignment Phase := do
  let positive : Literal := ⟨v, true⟩
  let past ← Change.read (·.value positive)
  write positive.slot .unset
  write (-positive).slot .unset
  if past.isSet then
    Change.ensure (0 < (← get).assigned) .overflow
    modify fun a => { a with assigned := a.assigned - 1 }
  return past

end Assignment

end Polarity
