/-!
# Variables and literals

A variable is a number counted from zero, a literal a variable with a sign.

**Slots.** A table with one entry for each literal keeps two neighbouring slots for each
variable, the positive literal first. The order of literals is the order of their slots: by
variable, and of the same variable the positive literal first.
-/

namespace Polarity

/-- A variable, counted from zero. -/
structure Variable where
  index : Nat
  deriving DecidableEq, Repr, Inhabited

namespace Variable

/-- The largest number of variables: each literal of a smaller variable has a 32-bit number. -/
def limit : Nat := 0x7FFFFFFF

/-- The largest variable whose literals can be numbered. -/
def max : Variable := ⟨limit - 1⟩

/-- The variable as diagnostics write it. -/
def text (v : Variable) : String :=
  "x" ++ toString v.index

end Variable

/-- A variable with a sign. -/
structure Literal where
  var : Variable
  positive : Bool
  deriving DecidableEq, Repr, Inhabited

namespace Literal

/-- The same variable with the other sign. -/
protected def neg (l : Literal) : Literal :=
  { l with positive := !l.positive }

instance : Neg Literal := ⟨Literal.neg⟩

/-- The place of a literal in a table with two entries for each variable. -/
def slot (l : Literal) : Nat :=
  2 * l.var.index + (if l.positive then 0 else 1)

/-- The literal as diagnostics write it. -/
def text (l : Literal) : String :=
  if l.positive then l.var.text else "¬" ++ l.var.text

/-- Literals are ordered by variable; of one variable the positive literal comes first. -/
protected def compare (a b : Literal) : Ordering :=
  (Ord.compare a.var.index b.var.index).then (Ord.compare b.positive a.positive)

instance : Ord Literal := ⟨Literal.compare⟩

/-- A literal does not come after another one. -/
def precedes (a b : Literal) : Bool :=
  (Ord.compare a b).isLE

/-- The literals in ascending order; equal ones keep the order they have. -/
def sorted (literals : List Literal) : List Literal :=
  literals.mergeSort precedes

@[simp] theorem var_neg (l : Literal) : (-l).var = l.var := rfl

@[simp] theorem positive_neg (l : Literal) : (-l).positive = !l.positive := rfl

@[simp] theorem neg_neg (l : Literal) : - -l = l := by
  obtain ⟨v, s⟩ := l
  show Literal.mk v (!!s) = Literal.mk v s
  rw [Bool.not_not]

end Literal

end Polarity
