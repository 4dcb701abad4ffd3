import Polarity.Proofs.Search.Verdict
import Polarity.Proofs.Solver.Preparation

/-!
# Searches that are told a model

**The proposal** of a solver gives each variable the value that it has, or else the sign with which
the search would decide it.

**Guided searches.** If the proposal satisfies the formula, the search follows it. Its assignment is
always part of the proposal: a unit conclusion holds in every valuation that satisfies the formula
and extends the assignment, and a decision takes the sign of the proposal because no conflict has
changed the stored phases. So no clause is ever refuted, and the search ends with the proposal as
its model (`Guided`, `Turn.guided`).

A hint makes itself the proposal of a fresh solver, with the initial phase for what it leaves open.
-/

namespace Polarity

/-- The literals that a valuation makes true, in the order of the first `n` variables. -/
def Valuation.literals (μ : Valuation) (n : Nat) : List Literal :=
  (List.range n).map fun i => ⟨⟨i⟩, μ ⟨i⟩⟩

/-- The value of each variable, or else the sign that a decision would give it. -/
def Solver.proposal (s : Solver) : Valuation := fun v =>
  match s.store.assignment.varValue v with
  | .ok .positive => true
  | .ok .negative => false
  | _ =>
    match s.store.phases.decisionPhase v s.options.target s.options.initialPhase with
    | .ok p => p ≠ .negative
    | .error _ => false

/-- The truth values that a hint proposes. -/
def Hint.valuation (h : Hint) : Valuation := fun v => h.phases[v.index]? == some .positive

/-- The truth values that a hint proposes, with an initial phase for the variables that it leaves
open. -/
def Hint.completed (h : Hint) (initial : Phase) : Valuation := fun v =>
  match h.phases[v.index]? with
  | some p => initial.overlay p ≠ .negative
  | none => false

variable {f : Formula} {a : Assignment} {clauses : List Clause} {s : Solver} {μ : Valuation}
  {v : Variable} {p : Phase}

/-! ## Proposals -/

theorem Valuation.literals_congr {ν : Valuation} {n : Nat}
    (h : ∀ v : Variable, v.index < n → μ v = ν v) : μ.literals n = ν.literals n := by
  refine List.map_congr_left fun i hi => ?_
  rw [h ⟨i⟩ (List.mem_range.1 hi)]

theorem Solver.proposal_of_assigned (h : s.store.assignment.varValue v = .ok p)
    (hp : p.isSet = true) : Phase.ofBool (s.proposal v) = p := by
  cases p with
  | positive => simp [proposal, h, Phase.ofBool]
  | negative => simp [proposal, h, Phase.ofBool]
  | unset => simp at hp

theorem Solver.proposal_of_unset (h : s.store.assignment.varValue v = .ok .unset)
    (hp : s.store.phases.decisionPhase v s.options.target s.options.initialPhase = .ok p) :
    s.proposal v = decide (p ≠ .negative) := by
  simp [proposal, h, hp]

theorem Solver.extendedBy_proposal (ha : s.store.assignment.Consistent) :
    s.store.assignment.ExtendedBy s.proposal := by
  intro l hl
  have h := proposal_of_assigned (ha.varValue_of_positive hl) (Phase.isSet_ofBool _)
  unfold Literal.Holds
  cases hμ : s.proposal l.var <;> cases hl : l.positive <;> simp [hμ, hl, Phase.ofBool] at h ⊢

/-- **A hint and the initial phase are the proposal** where target phases are in use. -/
theorem Solver.proposal_hinted {options : Options} {h : Hint} (htarget : options.target = true) :
    (hinted options h).proposal = h.completed options.initialPhase := by
  funext v
  by_cases hv : v.index < h.phases.length
  · have hfree : (hinted options h).store.assignment.varValue v = .ok .unset :=
      Assignment.value_blank_iff.2 ⟨hv, rfl⟩
    have hlast : (hinted options h).store.phases.saved.get v = .ok .unset := by
      have hv' : v.index < h.size := hv
      simp [hinted, blank, PhaseArray.get, hv']
    have hsign : (hinted options h).store.phases.decisionPhase v options.target
        options.initialPhase = .ok (options.initialPhase.overlay h.phases[v.index]) := by
      have hwanted : (hinted options h).store.phases.target.get v = .ok h.phases[v.index] := by
        simp [hinted, PhaseArray.get, hv]
      cases hp : h.phases[v.index] <;>
        simp [Phases.decisionPhase, htarget, hwanted, hlast, hp, bind, Except.bind, pure,
          Except.pure, Phase.isSet, Phase.overlay]
    rw [proposal_of_unset hfree hsign, Hint.completed, List.getElem?_eq_getElem hv]
  · have hnone : ¬ 2 * v.index < 2 * h.size := by
      show ¬ 2 * v.index < 2 * h.phases.length
      omega
    simp [proposal, hinted, blank, Assignment.varValue, Assignment.value, Assignment.entry,
      Assignment.blank, Literal.slot, hnone, Phases.decisionPhase, htarget, PhaseArray.get, hv,
      bind, Except.bind, Hint.completed]

/-- A hint for all variables leaves none open. -/
theorem Hint.completed_of_isSet {h : Hint} (hset : ∀ p ∈ h.phases, p.isSet = true)
    (initial : Phase) : h.completed initial = h.valuation := by
  funext v
  unfold completed valuation
  cases hp : h.phases[v.index]? with
  | none => rfl
  | some p =>
    have hp' := hset p (List.mem_of_getElem? hp)
    cases p with
    | positive => rfl
    | negative => rfl
    | unset => simp at hp'

/-- A full assignment lists the literals of the valuation that extends it. -/
theorem Assignment.model_eq_literals (ha : a.Consistent) (hfull : a.firstUnassigned = none)
    (he : a.ExtendedBy μ) : a.model = Valuation.literals μ a.vars := by
  refine List.ext_getElem (by simp [model, Valuation.literals]) fun i hi _ => ?_
  have hmem := (mem_model_iff ha hfull).1 (List.getElem_mem hi)
  have hvar : (a.model[i]).var = ⟨i⟩ := by simp [model]
  have hholds : μ a.model[i].var = a.model[i].positive := he _ hmem
  rw [hvar] at hholds
  simp only [Valuation.literals, List.getElem_map, List.getElem_range, hholds]
  rw [← hvar]

namespace Search

variable {t u : Search} {r : Option Outcome}

/-! ## Following the proposal -/

/-- A search has met no conflict, its assignment is part of the proposal, and each entry of its
trail was counted. -/
structure Guided (s : Solver) (t : Search) : Prop where
  phases : t.phases = s.store.phases
  options : t.solver.options = s.options
  terminated : t.solver.engine.terminated = false
  conflicts : t.statistics.conflicts = s.engine.statistics.conflicts
  extendedBy : t.assignment.ExtendedBy s.proposal
  counted : ∃ d p, d + p = t.trail.length ∧
    t.statistics.decisions = s.engine.statistics.decisions + UInt64.ofNat d ∧
    t.statistics.propagations = s.engine.statistics.propagations + UInt64.ofNat p

theorem guided_start (ha : s.store.assignment.Consistent) (hflag : s.engine.terminated = false) :
    Guided s (start s) where
  phases := rfl
  options := rfl
  terminated := hflag
  conflicts := rfl
  extendedBy := Solver.extendedBy_proposal ha
  counted := ⟨0, 0, rfl, by simp [start, statistics], by simp [start, statistics]⟩

theorem Draws.guided (hd : Draws f.clauses t u) (hg : t.Grounded a)
    (hcl : Covers a.vars f.clauses) (hμ : f.SatisfiedBy s.proposal) (h : Guided s t) :
    Guided s u where
  phases := hd.kept.phases.trans h.phases
  options := hd.kept.options.trans h.options
  terminated := hd.kept.terminated.trans h.terminated
  conflicts := hd.kept.conflicts.trans h.conflicts
  extendedBy := hd.extendedBy (hg.ready hcl) hμ h.extendedBy
  counted := by
    obtain ⟨d, p, hlen, hdec, hprop⟩ := h.counted
    obtain ⟨new, htrail, -, hnew⟩ := hd.kept.implied
    refine ⟨d, p + new.length, ?_, hd.kept.decisions.trans hdec, ?_⟩
    · rw [htrail, List.length_append]
      omega
    · rw [hnew, hprop, UInt64.ofNat_add, UInt64.add_assoc]

theorem Guided.decided (h : Guided s t) (hg : t.Grounded s.store.assignment)
    (hv : t.assignment.varValue v = .ok .unset)
    (hp : t.phases.decisionPhase v t.solver.options.target t.solver.options.initialPhase = .ok p) :
    Guided s (t.decidedOn ⟨v, p ≠ .negative⟩) where
  phases := h.phases
  options := h.options
  terminated := h.terminated
  conflicts := h.conflicts
  extendedBy := by
    have hfree : t.assignment.value ⟨v, p ≠ .negative⟩ = .ok .unset :=
      hg.assignment_consistent.value_unset_of_var hv rfl
    have hstart : s.store.assignment.varValue v = .ok .unset :=
      hg.fits.value_unset hg.consistent (hg.assignment ▸ hv)
    -- The sign is that of the proposal, since phases and options are as they were.
    rw [h.phases, h.options] at hp
    refine (Assignment.extendedBy_put_iff hg.assignment_consistent hfree).2 ⟨?_, h.extendedBy⟩
    exact Solver.proposal_of_unset hstart hp
  counted := by
    obtain ⟨d, q, hlen, hdec, hprop⟩ := h.counted
    refine ⟨d + 1, q, ?_, ?_, hprop⟩
    · show d + 1 + q = t.trail.length + 1
      omega
    · show t.statistics.decisions + 1 = _
      rw [hdec, UInt64.ofNat_add, UInt64.add_assoc]
      rfl

/-- **A round follows the proposal**, and if it is the last one the proposal is its answer. -/
theorem Turn.guided (h : Turn f.clauses s.store.assignment t r u)
    (hg : t.Grounded s.store.assignment) (hcl : Covers s.store.assignment.vars f.clauses)
    (hμ : f.SatisfiedBy s.proposal) (ht : Guided s t) :
    Guided s u ∧ ∀ o, r = some o → o = .sat (Valuation.literals s.proposal s.vars) ∧
      u.trail.length = (start s).free := by
  cases h with
  | stopped flag => simp [ht.terminated] at flag
  | model _ hdraws _ hfull =>
    have hu := hdraws.guided hg hcl hμ ht
    have hgu := hg.draws hcl hdraws
    have hfinal := hgu.assignment_consistent.assigned_of_firstUnassigned hfull
    refine ⟨hu, fun o ho => ?_⟩
    obtain rfl := Option.some.inj ho
    constructor
    · rw [Assignment.model_eq_literals hgu.assignment_consistent hfull hu.extendedBy,
        hgu.vars_assignment]
      rfl
    · rw [hgu.vars_assignment, hgu.assignment, Assignment.assigned_after] at hfinal
      exact Nat.eq_sub_of_add_eq' hfinal
  | decided _ hdraws hfirst hsign =>
    have hgu := hg.draws hcl hdraws
    have hv := hgu.assignment_consistent.firstUnassigned_eq_some hfirst
    exact ⟨(hdraws.guided hg hcl hμ ht).decided hgu hv hsign, nofun⟩
  | flipped _ hdraws hrefutes =>
    have hu := hdraws.guided hg hcl hμ ht
    exact absurd hμ (((hg.ready hcl).draws hdraws).not_forall_holds hrefutes hu.extendedBy)
  | refuted _ hdraws hrefutes =>
    have hu := hdraws.guided hg hcl hμ ht
    exact absurd hμ (((hg.ready hcl).draws hdraws).not_forall_holds hrefutes hu.extendedBy)

end Search

/-- A hint that satisfies `Formula.refusal`. -/
def Hint.compliance : Hint := ⟨Store.inlineHint, [.negative, .positive]⟩

open Search

namespace Solver

/-- A proposal that satisfies the formula is the answer, without a conflict. -/
theorem search_follows_proposal (hf : f.WellFormed) (hs : s.SizedTo f)
    (hflag : s.engine.terminated = false) (hμ : f.SatisfiedBy s.proposal) :
    ∃ t, search f s = .ok (.sat (Valuation.literals s.proposal f.vars)) t ∧
      t.engine.statistics.conflicts = s.engine.statistics.conflicts ∧
      (t.engine.statistics.decisions - s.engine.statistics.decisions).toNat +
        (t.engine.statistics.propagations - s.engine.statistics.propagations).toNat =
          (start s).free ∧
      t.store.phases = s.store.phases := by
  obtain ⟨o, t, hsearch, hguided, rfl, hlen⟩ := search_spec hf hs
    (P := fun t => Guided s t)
    (Q := fun o t => Guided s t ∧ o = .sat (Valuation.literals s.proposal s.vars) ∧
      t.trail.length = (start s).free)
    (guided_start hs.consistent hflag)
    (fun {t r u} hg hguided hturn => by
      obtain ⟨hnext, hlast⟩ := hturn.guided hg (hs.covers hf) hμ hguided
      cases r with
      | none => exact hnext
      | some o => exact ⟨hnext, hlast o rfl⟩)
  obtain ⟨d, p, hdp, hdec, hprop⟩ := hguided.counted
  refine ⟨t.solver, hs.vars ▸ hsearch, hguided.conflicts, ?_, hguided.phases⟩
  have hle : (start s).free < 2 ^ 64 := by
    have hvars := hf.vars_le
    have hfree : (start s).free ≤ s.vars := Nat.sub_le _ _
    rw [hs.vars] at hfree
    unfold Variable.limit at hvars
    omega
  have hd : raised (·.decisions) (start s) t = d := raised_of_eq_add hdec (by omega)
  have hp : raised (·.propagations) (start s) t = p := raised_of_eq_add hprop (by omega)
  rw [← hlen, ← hdp]
  exact congrArg₂ (· + ·) hd hp

/-- A hint for all variables that satisfies the formula is the answer. -/
theorem search_follows_hint (hf : f.WellFormed) {options : Options} {h : Hint}
    (htarget : options.target = true) (hsize : h.size = f.vars)
    (hset : ∀ p ∈ h.phases, p.isSet = true) (hμ : f.SatisfiedBy h.valuation) :
    ∃ t, (do resize f.vars; initPhases h; search f : Change Solver Outcome) (ofOptions options) =
      .ok (.sat (Valuation.literals h.valuation f.vars)) t := by
  have hproposal := proposal_hinted (h := h) htarget
  rw [Hint.completed_of_isSet hset] at hproposal
  have hresize := resize_ofOptions options hf.vars_le
  have hinit := initPhases_blank options h
  rw [hsize] at hinit
  obtain ⟨t, ht, -⟩ := search_follows_proposal hf (sizedTo_hinted options hsize) rfl
    (by rw [hproposal]; exact hμ)
  rw [hproposal] at ht
  exact ⟨t, by simp only [Change.bind_run, hresize, hinit, ht]⟩

/-- **Stored phases that describe a model are followed without a conflict.** If the proposal of a
solver satisfies the formula, the search answers with the proposal, meets no conflict, counts one
decision or propagation for each variable that was free, and leaves the stored phases as they were.
This is so for a fresh solver that was given a satisfying hint for all variables. -/
theorem search_follows_model (hf : f.WellFormed) :
    (∀ s : Solver, s.SizedTo f → s.engine.terminated = false → f.SatisfiedBy s.proposal →
      ∃ t, search f s = .ok (.sat (Valuation.literals s.proposal f.vars)) t ∧
        t.engine.statistics.conflicts = s.engine.statistics.conflicts ∧
        (t.engine.statistics.decisions - s.engine.statistics.decisions).toNat +
          (t.engine.statistics.propagations - s.engine.statistics.propagations).toNat =
            (start s).free ∧
        t.store.phases = s.store.phases) ∧
    ∀ (options : Options) (h : Hint), options.target = true → h.size = f.vars →
      (∀ p ∈ h.phases, p.isSet = true) → f.SatisfiedBy h.valuation →
      ∃ t, (do resize f.vars; initPhases h; search f : Change Solver Outcome)
        (ofOptions options) = .ok (.sat (Valuation.literals h.valuation f.vars)) t := by
  constructor
  · intro s hs hflag hμ
    exact search_follows_proposal hf hs hflag hμ
  · intro options h htarget hsize hset hμ
    exact search_follows_hint hf htarget hsize hset hμ

theorem search_follows_model_refusal :
    (∃ t, search .refusal (hinted {} .compliance) =
      .ok (.sat [⟨⟨0⟩, false⟩, ⟨⟨1⟩, true⟩]) t) ∧
    ∃ t, (do resize 2; initPhases .compliance; search .refusal : Change Solver Outcome)
      (ofOptions {}) = .ok (.sat [⟨⟨0⟩, false⟩, ⟨⟨1⟩, true⟩]) t := by
  have hmodel := search_follows_model Formula.wellFormed_refusal
  constructor
  · obtain ⟨t, ht, -⟩ := hmodel.1 (hinted {} .compliance) (sizedTo_hinted {} rfl) rfl
      (by decide +kernel)
    exact ⟨t, ht⟩
  · exact hmodel.2 {} .compliance rfl rfl (by decide) (by decide +kernel)

end Solver

end Polarity
