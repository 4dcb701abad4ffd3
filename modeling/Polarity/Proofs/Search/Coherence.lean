import Polarity.Proofs.Search.Entailment
import Polarity.Proofs.Search.TreeBound

/-!
# Trail and assignment agree

**Coherence** (`Coherent`). After any number of rounds the assignment is the one from the start with
the literals of the trail written over it, no variable is on the trail twice or had a value before,
and what is implied or flipped follows from the formula and the open decisions below it.

**Stop requests.** A request to stop is seen before the next round and changes nothing but the flag,
so that a search which is stopped after any number of rounds (`stoppedAfter`) leaves a coherent
state as well.
-/

namespace Polarity

variable {f : Formula} {a : Assignment} {clauses : List Clause}

namespace Search

variable {s t : Search} {k : Nat}

/-- The trail and the assignment of a search agree, where `a` is the assignment from which the
search of the formula started. -/
structure Coherent (f : Formula) (a : Assignment) (t : Search) : Prop where
  distinct : (t.trail.map (·.lit.var)).Nodup
  free : ∀ e ∈ t.trail, a.varValue e.lit.var = .ok .unset
  vars : t.assignment.vars = a.vars
  value : ∀ l, t.assignment.value l =
    if l ∈ t.trail.map (·.lit) then .ok .positive
    else if -l ∈ t.trail.map (·.lit) then .ok .negative
    else a.value l
  opposite : ∀ l p, t.assignment.value l = .ok p → t.assignment.value (-l) = .ok (-p)
  assigned : t.assignment.assigned = a.assigned + t.trail.length
  forced : ∀ later e earlier, t.trail = later ++ e :: earlier → e.reason ≠ .decided →
    ∀ μ, f.SatisfiedBy μ → a.ExtendedBy μ →
      (∀ d ∈ earlier, d.reason = .decided → d.lit.Holds μ) → e.lit.Holds μ
  sized : t.phases.Sized f.vars

theorem Grounded.coherent (ht : t.Grounded a) (hvars : a.vars = f.vars)
    (h : Forced f a t.trail) : Coherent f a t where
  distinct := ht.fits.nodup ht.consistent
  free e he := ht.consistent.value_unset_of_var (ht.fits.free ht.consistent he) rfl
  vars := ht.vars_assignment
  value l := by rw [ht.assignment, ht.fits.value_eq ht.consistent]
  opposite := ht.assignment_consistent.opposite
  assigned := by rw [ht.assignment, Assignment.assigned_after]
  forced later e earlier htrail he := by
    rw [htrail] at h
    exact h.of_append.1 he
  sized := hvars ▸ ht.sized

/-! ## Stop requests -/

/-- The search with its flag set. -/
def interrupted (s : Search) : Search :=
  { s with solver := { s.solver with engine := s.solver.engine.terminate.2 } }

/-- A search that is asked to stop after so many rounds. -/
def stoppedAfter (clauses : List Clause) (k : Nat) : Change Search Outcome := do
  match ← iterate clauses k with
  | some outcome => return outcome
  | none =>
    modify interrupted
    finish clauses

theorem finish_interrupted : finish clauses s.interrupted = .ok .unknown s.interrupted := by
  have hround : round clauses s.interrupted = .ok (some .unknown) s.interrupted := by
    simp [round, interrupted, Engine.terminate]
  have hone : iterate clauses 1 s.interrupted = .ok (some .unknown) s.interrupted :=
    (iterate_succ rfl).trans hround
  exact finish_eq hone (Nat.two_pow_pos _)

theorem Coherent.interrupted (h : Coherent f a t) : Coherent f a t.interrupted :=
  ⟨h.distinct, h.free, h.vars, h.value, h.opposite, h.assigned, h.forced, h.sized⟩

/-- **A request to stop leaves the state as it is.** -/
theorem stoppedAfter_eq {r : Option Outcome} (h : iterate clauses k s = .ok r t) :
    stoppedAfter clauses k s =
      match r with
      | some outcome => .ok outcome t
      | none => .ok .unknown t.interrupted := by
  cases r with
  | some o => simp [stoppedAfter, h]
  | none => simp [stoppedAfter, h, finish_interrupted]

/-- Nothing is left on the trail when a search gives up. -/
theorem Turn.assignment_of_unsat (h : Turn clauses a s (some .unsat) t) : t.assignment = a := by
  cases h with
  | refuted => rfl

end Search

open Search

variable {s : Solver}

/-- **Rounds are coherent.** They never fail, and if they give up the assignment is as before. -/
theorem Solver.SizedTo.iterate_coherent (hs : s.SizedTo f) (hf : f.WellFormed) (k : Nat) :
    ∃ r t, iterate f.clauses k (start s) = .ok r t ∧ Coherent f s.store.assignment t ∧
      (r = some .unsat → t.assignment = s.store.assignment) := by
  have hcl := hs.covers hf
  obtain ⟨r, t, ht, hg, h⟩ := iterate_spec hs.grounded hcl
    (P := fun _ t => Forced f s.store.assignment t.trail)
    (Q := fun _ o t => Forced f s.store.assignment t.trail ∧
      (o = .unsat → t.assignment = s.store.assignment))
    trivial
    (fun {_ t r u} _ hg hforced _ hturn => by
      have hnext := hturn.forced hg hcl hforced
      cases r with
      | none => exact hnext
      | some o =>
        refine ⟨hnext, ?_⟩
        rintro rfl
        exact hturn.assignment_of_unsat)
    k
  cases r with
  | none => exact ⟨none, t, ht, hg.coherent hs.vars h, nofun⟩
  | some o =>
    obtain ⟨-, -, -, hforced, hunsat⟩ := h
    exact ⟨some o, t, ht, hg.coherent hs.vars hforced, fun ho => hunsat (Option.some.inj ho)⟩

namespace Solver

/-- **Trail and assignment agree at every step**, also of a search that is stopped, and a search
that finds no model leaves the assignment as it was. -/
theorem search_coherent (hf : f.WellFormed) (hs : s.SizedTo f) :
    (∀ k, ∃ r t, iterate f.clauses k (start s) = .ok r t ∧ Coherent f s.store.assignment t ∧
      (r = some .unsat → t.assignment = s.store.assignment) ∧
      ∃ u, stoppedAfter f.clauses k (start s) = .ok (r.getD .unknown) u ∧
        Coherent f s.store.assignment u ∧ u.trail = t.trail ∧ u.assignment = t.assignment) ∧
    ∃ k o t, iterate f.clauses k (start s) = .ok (some o) t ∧ search f s = .ok o t.solver ∧
      (o = .unsat → t.solver.store.assignment = s.store.assignment) := by
  constructor
  · intro k
    obtain ⟨r, t, ht, hc, hunsat⟩ := hs.iterate_coherent hf k
    refine ⟨r, t, ht, hc, hunsat, ?_⟩
    rw [stoppedAfter_eq ht]
    cases r with
    | none => exact ⟨t.interrupted, rfl, hc.interrupted, rfl, rfl⟩
    | some o => exact ⟨t, rfl, hc, rfl, rfl⟩
  · obtain ⟨k, o, t, -, hk, hsearch, -⟩ := search_ends hf hs
    obtain ⟨r, u, hu, -, hunsat⟩ := hs.iterate_coherent hf k
    obtain ⟨rfl, rfl⟩ : r = some o ∧ u = t := by simpa [hk, eq_comm] using hu
    refine ⟨k, o, u, hk, hsearch, ?_⟩
    rintro rfl
    exact hunsat rfl

theorem search_coherent_refusal :
    ∃ r t, iterate Formula.refusal.clauses 2 (start (blank {} 2)) = .ok r t ∧
      Coherent .refusal (.blank 2) t := by
  obtain ⟨r, t, ht, hc, -⟩ :=
    (search_coherent Formula.wellFormed_refusal (sizedTo_blank {} .refusal)).1 2
  exact ⟨r, t, ht, hc⟩

end Solver

end Polarity
