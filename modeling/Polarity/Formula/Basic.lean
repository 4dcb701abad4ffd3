import Polarity.Literal.Dimacs

/-!
# Formulas

A formula in conjunctive normal form: a number of variables, and clauses over them. A clause is a
list of literals and is satisfied when one of them is true; the formula is satisfied when all of
its clauses are.
-/

namespace Polarity

/-- Literals of which one has to be true. -/
abbrev Clause := List Literal

/-- Clauses that all have to be satisfied, over the variables below `vars`. -/
structure Formula where
  vars : Nat := 0
  clauses : List Clause := []
  deriving DecidableEq, Repr, Inhabited

namespace Formula

/-- The text of one clause: the numbers of its literals, then zero. -/
def clauseText (c : Clause) : Except Failure String := do
  let numbers ← c.mapM Literal.toDimacs
  return String.join (numbers.map fun n => s!"{n} ") ++ "0\n"

/-- The formula as a DIMACS file. -/
def text (f : Formula) : Except Failure String := do
  let clauses ← f.clauses.mapM clauseText
  return s!"p cnf {f.vars} {f.clauses.length}\n" ++ String.join clauses

end Formula

end Polarity
