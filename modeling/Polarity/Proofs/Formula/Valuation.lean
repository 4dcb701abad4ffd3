import Polarity.Formula.Basic
import Polarity.Proofs.Assignment.Values

/-!
# Valuations

What it means that a formula is satisfied. A *valuation* gives every variable a truth value; it
satisfies a formula when each clause has a literal that it makes true, and it extends an assignment
when it makes true all that the assignment makes true.
-/

namespace Polarity

/-- A truth value for every variable. -/
abbrev Valuation := Variable → Bool

variable {μ : Valuation} {a : Assignment} {k l : Literal}

/-! ## Literals, clauses and formulas -/

/-- The valuation makes the literal true. -/
def Literal.Holds (μ : Valuation) (l : Literal) : Prop := μ l.var = l.positive

instance (μ : Valuation) (l : Literal) : Decidable (l.Holds μ) :=
  inferInstanceAs (Decidable (μ l.var = l.positive))

theorem Literal.holds_neg : (-l).Holds μ ↔ ¬ l.Holds μ := by
  unfold Holds
  rw [var_neg, positive_neg]
  cases μ l.var <;> cases l.positive <;> simp

/-- The valuation makes a literal of the clause true. -/
def Clause.Holds (μ : Valuation) (c : Clause) : Prop := ∃ l ∈ c, l.Holds μ

instance (μ : Valuation) (c : Clause) : Decidable (Clause.Holds μ c) :=
  inferInstanceAs (Decidable (∃ l ∈ c, l.Holds μ))

/-- The valuation satisfies all clauses. -/
def Formula.SatisfiedBy (f : Formula) (μ : Valuation) : Prop := ∀ c ∈ f.clauses, Clause.Holds μ c

instance (f : Formula) (μ : Valuation) : Decidable (f.SatisfiedBy μ) :=
  inferInstanceAs (Decidable (∀ c ∈ f.clauses, Clause.Holds μ c))

/-- There are not too many variables, and the clauses name no others. -/
structure Formula.WellFormed (f : Formula) : Prop where
  vars_le : f.vars ≤ Variable.limit
  var_lt : ∀ c ∈ f.clauses, ∀ l ∈ c, l.var.index < f.vars

/-- Whether a formula is satisfied depends on its own variables only. -/
theorem Formula.satisfiedBy_congr {f : Formula} {ν : Valuation} (hf : f.WellFormed)
    (h : ∀ v : Variable, v.index < f.vars → μ v = ν v) : f.SatisfiedBy μ ↔ f.SatisfiedBy ν := by
  refine forall₂_congr fun c hc => exists_congr fun l => and_congr_right fun hl => ?_
  rw [Literal.Holds, Literal.Holds, h l.var (hf.var_lt c hc l hl)]

/-! ## Extending an assignment -/

/-- The valuation makes every literal true that is true under the assignment. -/
def Assignment.ExtendedBy (a : Assignment) (μ : Valuation) : Prop :=
  ∀ l, a.value l = .ok .positive → l.Holds μ

namespace Assignment

theorem ExtendedBy.not_holds (h : a.ExtendedBy μ) (ha : a.Consistent)
    (hl : a.value l = .ok .negative) : ¬ l.Holds μ :=
  Literal.holds_neg.1 (h _ (ha.opposite _ _ hl))

theorem extendedBy_put_iff (ha : a.Consistent) (hl : a.value l = .ok .unset) :
    (a.put l).ExtendedBy μ ↔ l.Holds μ ∧ a.ExtendedBy μ := by
  constructor
  · intro h
    refine ⟨h l (value_put_self ha hl), fun k hk => h k ?_⟩
    exact (value_put_eq_positive_iff ha hl).2 (Or.inr hk)
  · rintro ⟨hμ, h⟩ k hk
    rcases (value_put_eq_positive_iff ha hl).1 hk with rfl | hk
    · exact hμ
    · exact h k hk

end Assignment

end Polarity
