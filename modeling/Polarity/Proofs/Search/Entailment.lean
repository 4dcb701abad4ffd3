import Polarity.Proofs.Search.Rounds

/-!
# What a trail entails

**The invariant** (`Forced`). A literal on the trail that is implied or flipped holds in every
valuation that satisfies the formula, extends the assignment before the trail and follows the open
decisions below the literal. The three steps that add a literal keep this:

* a unit conclusion, since every such valuation makes all other literals of the clause false;
* a decision, of which nothing is asked;
* the flip of a decision, since a valuation that follows it would make a refuted clause true
  (`Forced.not_follows`).

When nothing is left to flip, every valuation follows the trail, so that none satisfies the formula.
-/

namespace Polarity

/-- The valuation makes true every decision of a trail whose negation is still to be tried. -/
def Follows (μ : Valuation) (trail : List Entry) : Prop :=
  ∀ e ∈ trail, e.reason = .decided → e.lit.Holds μ

/-- Implied and flipped literals hold in every valuation that satisfies the formula, extends the
assignment and follows the decisions below them. -/
def Forced (f : Formula) (a : Assignment) : List Entry → Prop
  | [] => True
  | e :: earlier =>
    (e.reason ≠ .decided → ∀ μ, f.SatisfiedBy μ → a.ExtendedBy μ → Follows μ earlier →
      e.lit.Holds μ) ∧ Forced f a earlier

variable {f : Formula} {a : Assignment} {μ : Valuation} {e : Entry}
  {trail later earlier : List Entry}

theorem Follows.of_append (h : Follows μ (later ++ earlier)) : Follows μ earlier :=
  fun e he => h e (List.mem_append_right later he)

theorem Search.Closed.follows (h : Search.Closed trail) : Follows μ trail :=
  fun e he hd => absurd hd (h e he)

namespace Forced

theorem of_append (h : Forced f a (later ++ earlier)) : Forced f a earlier := by
  induction later with
  | nil => exact h
  | cons e later ih => exact ih h.2

/-- The literals of a trail hold in all valuations that follow it. -/
theorem holds (h : Forced f a trail) (hμ : f.SatisfiedBy μ) (he : a.ExtendedBy μ)
    (hfol : Follows μ trail) : ∀ e ∈ trail, e.lit.Holds μ := by
  induction trail with
  | nil => exact fun e he => absurd he List.not_mem_nil
  | cons d earlier ih =>
    have hearlier : Follows μ earlier := fun e he => hfol e (List.mem_cons_of_mem d he)
    refine List.forall_mem_cons.2 ⟨?_, ih h.2 hearlier⟩
    by_cases hd : d.reason = .decided
    · exact hfol d List.mem_cons_self hd
    · exact h.1 hd μ hμ he hearlier

end Forced

namespace Search

variable {s t : Search} {r : Option Outcome}

theorem Grounded.extendedBy (hs : s.Grounded a) (h : Forced f a s.trail) (hμ : f.SatisfiedBy μ)
    (he : a.ExtendedBy μ) (hfol : Follows μ s.trail) : s.assignment.ExtendedBy μ := by
  rw [hs.assignment]
  exact (hs.fits.extendedBy_iff hs.consistent).2 ⟨he, h.holds hμ he hfol⟩

/-- **A refuted clause refutes the open decisions.** -/
theorem Grounded.not_follows (hs : s.Grounded a) (hcl : Covers a.vars f.clauses)
    (h : Forced f a s.trail) (hr : Refutes f.clauses s.assignment) (hμ : f.SatisfiedBy μ)
    (he : a.ExtendedBy μ) : ¬ Follows μ s.trail := by
  intro hfol
  exact (hs.ready hcl).not_forall_holds hr (hs.extendedBy h hμ he hfol) hμ

theorem Draw.forced (hd : Draw f.clauses s t) (hs : s.Grounded a) (hcl : Covers a.vars f.clauses)
    (h : Forced f a s.trail) : Forced f a t.trail := by
  cases hd with
  | intro hc hu =>
    refine ⟨fun _ μ hμ he hfol => ?_, h⟩
    exact Clause.holds_of_unit hs.assignment_consistent ((hs.ready hcl).covers _ hc) hu (hμ _ hc)
      (hs.extendedBy h hμ he hfol)

theorem Draws.forced (hd : Draws f.clauses s t) (hs : s.Grounded a) (hcl : Covers a.vars f.clauses)
    (h : Forced f a s.trail) : Forced f a t.trail := by
  induction hd with
  | refl => exact h
  | tail hdraws hlast ih => exact hlast.forced (hs.draws hcl hdraws) hcl ih

/-- The flip of a decision is forced once a clause is refuted under it. -/
theorem Grounded.forced_flip {gone : List Entry} {l : Literal} (hs : s.Grounded a)
    (hcl : Covers a.vars f.clauses) (h : Forced f a s.trail)
    (hr : Refutes f.clauses s.assignment) (ht : s.trail = gone ++ ⟨l, .decided⟩ :: earlier)
    (hg : Closed gone) : Forced f a (⟨-l, .flipped⟩ :: earlier) := by
  have hbelow : Forced f a (⟨l, .decided⟩ :: earlier) := (ht ▸ h : Forced f a (gone ++ _)).of_append
  refine ⟨fun _ μ hμ he hfol => ?_, hbelow.2⟩
  rw [Literal.holds_neg]
  intro hl
  -- The entries above the decision are not open, so that only the decision itself was missing.
  refine hs.not_follows hcl h hr hμ he ?_
  rw [ht]
  intro e he hd
  rcases List.mem_append.1 he with he | he
  · exact absurd hd (hg e he)
  · rcases List.mem_cons.1 he with rfl | he
    · exact hl
    · exact hfol e he hd

/-- **Every round keeps the invariant.** -/
theorem Turn.forced (h : Turn f.clauses a s r t) (hs : s.Grounded a)
    (hcl : Covers a.vars f.clauses) (hf : Forced f a s.trail) : Forced f a t.trail := by
  cases h with
  | stopped => exact hf
  | model _ hdraws => exact hdraws.forced hs hcl hf
  | decided _ hdraws => exact ⟨fun hne => absurd rfl hne, hdraws.forced hs hcl hf⟩
  | flipped _ hdraws hrefutes htrail hclosed =>
    exact (hs.draws hcl hdraws).forced_flip hcl (hdraws.forced hs hcl hf) hrefutes htrail hclosed
  | refuted => trivial

/-- **A search that gives up is right**: no valuation that extends the start satisfies the
formula. -/
theorem Turn.not_satisfiedBy (h : Turn f.clauses a s (some .unsat) t) (hs : s.Grounded a)
    (hcl : Covers a.vars f.clauses) (hf : Forced f a s.trail) (he : a.ExtendedBy μ) :
    ¬ f.SatisfiedBy μ := by
  cases h with
  | refuted _ hdraws hrefutes hclosed =>
    intro hμ
    exact (hs.draws hcl hdraws).not_follows hcl (hdraws.forced hs hcl hf) hrefutes hμ he
      hclosed.follows

end Search

end Polarity
