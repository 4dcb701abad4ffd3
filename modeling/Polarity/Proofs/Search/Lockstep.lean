import Polarity.Proofs.Change.Lockstep
import Polarity.Proofs.Mirror
import Polarity.Proofs.Search.Stability
import Polarity.Proofs.Search.TreeBound

/-!
# Two searches in lockstep

Two searches of a formula and of its copy or mirror image are run side by side.

**Pairings** (`Pairing`). What the two have in common: whether the second one is the mirror image of
the first, and whether their best and target phases correspond or only have the same size. Saved
phases, values, trails, counters and flags always correspond (`Search.Paired`).

**Lockstep.** Each operation of the first search is matched by the same operation of the second, on
the same or the mirrored literals, and leaves the two paired. This goes through because nothing ever
reads best phases, target phases are read only when they are in use, and signs are treated alike.
So the second search gives the answer of the first one or its mirror image: `Solver.search_matches`.
-/

namespace Polarity

open Change

/-- What two searches have in common. -/
structure Pairing where
  /-- The second search is the mirror image of the first. -/
  mirrored : Bool
  /-- Best phases correspond. -/
  best : Bool
  /-- Target phases correspond. -/
  target : Bool

variable {w : Pairing} {m seen : Bool} {l : Literal} {v : Variable}

/-! ## Paired states -/

/-- Two arrays have one size, and if they are `seen` they correspond. -/
structure PhaseArray.Paired (m seen : Bool) (b c : PhaseArray) : Prop where
  size : c.size = b.size
  entries : seen = true → c = mirror m b

structure Phases.Paired (w : Pairing) (p q : Phases) : Prop where
  best : p.best.Paired w.mirrored w.best q.best
  saved : q.saved = mirror w.mirrored p.saved
  target : p.target.Paired w.mirrored w.target q.target

structure Store.Paired (w : Pairing) (s t : Store) : Prop where
  consistent : s.assignment.Consistent
  assignment : t.assignment = mirror w.mirrored s.assignment
  phases : s.phases.Paired w t.phases

/-- Target phases correspond if they are in use, and in a mirror image a phase is set for variables
of which nothing is known. -/
structure Solver.Paired (w : Pairing) (s t : Solver) : Prop where
  store : s.store.Paired w t.store
  engine : t.engine = s.engine
  useTarget : t.options.target = s.options.target
  seen : s.options.target = true → w.target = true
  initial : t.options.initialPhase = mirror w.mirrored s.options.initialPhase
  set : w.mirrored = true → s.options.initialPhase.isSet = true

structure Search.Paired (w : Pairing) (s t : Search) : Prop where
  solver : s.solver.Paired w t.solver
  trail : t.trail = s.trail.map (mirror w.mirrored ·)
  bestAssigned : t.bestAssigned = s.bestAssigned
  targetAssigned : t.targetAssigned = s.targetAssigned

/-! ## Phases -/

theorem PhaseArray.Paired.overlaid {b c : PhaseArray} (h : b.Paired m seen c) {phases : List Phase}
    (hsize : b.size = phases.length) :
    (b.overlaid phases).Paired m seen (c.overlaid (phases.map (mirror m ·))) where
  size := by
    rw [size_overlaid hsize, size_overlaid (by rw [h.size, hsize, List.length_map]), h.size]
  entries hseen := by rw [h.entries hseen, overlaid_mirror]

namespace Phases

variable {p q : Phases} {a : Assignment}

theorem saveBest_matches (h : p.Paired w q) :
    Matches Eq (Paired w) (saveBest a p) (saveBest (mirror w.mirrored a) q) := by
  by_cases hsize : p.best.size = a.vars
  · have hsize' : q.best.size = (mirror w.mirrored a).vars := by
      rw [Assignment.vars_mirror, h.best.size, hsize]
    rw [saveBest_eq hsize, saveBest_eq hsize', Assignment.varValues_mirror]
    exact matches_ok rfl
      ⟨h.best.overlaid (hsize.trans Assignment.length_varValues.symm), h.saved, h.target⟩
  · have hfail : saveBest a p = .error (.fault .sizesDiffer) p := by
      simp [saveBest, Change.ensure, hsize]
    rw [hfail]
    exact matches_error

theorem saveTarget_matches (h : p.Paired w q) :
    Matches Eq (Paired w) (saveTarget a p) (saveTarget (mirror w.mirrored a) q) := by
  by_cases hsize : p.target.size = a.vars
  · have hsize' : q.target.size = (mirror w.mirrored a).vars := by
      rw [Assignment.vars_mirror, h.target.size, hsize]
    rw [saveTarget_eq hsize, saveTarget_eq hsize', Assignment.varValues_mirror]
    exact matches_ok rfl
      ⟨h.best, h.saved, h.target.overlaid (hsize.trans Assignment.length_varValues.symm)⟩
  · have hfail : saveTarget a p = .error (.fault .sizesDiffer) p := by
      simp [saveTarget, Change.ensure, hsize]
    rw [hfail]
    exact matches_error

theorem save_matches (h : p.Paired w q) (value : Phase) :
    Matches Eq (Paired w) (save v value p) (save v (mirror w.mirrored value) q) := by
  unfold save
  rw [Phase.isSet_mirror]
  by_cases hset : value.isSet = true
  · rw [if_pos hset, if_pos hset]
    by_cases hv : v.index < p.saved.size
    · have hv' : v.index < q.saved.size := by rwa [h.saved, PhaseArray.size_mirror]
      simp only [onSaved, Change.on_run, PhaseArray.set_eq hv, PhaseArray.set_eq hv']
      refine matches_ok rfl ⟨h.best, ?_, h.target⟩
      rw [h.saved, PhaseArray.written_mirror]
    · have hfail : PhaseArray.set v value p.saved = .error (.fault .outOfRange) p.saved := by
        simp [PhaseArray.set, Change.ensure, hv]
      simp only [onSaved, Change.on_run, hfail]
      exact matches_error
  · rw [if_neg hset, if_neg hset]
    exact matches_ok rfl h

/-- Best phases have no part in the sign to try, and target phases only if they are in use. -/
theorem decisionPhase_mirror (h : p.Paired w q) {useTarget : Bool} {initial : Phase}
    (hseen : useTarget = true → w.target = true) :
    q.decisionPhase v useTarget (mirror w.mirrored initial) =
      (p.decisionPhase v useTarget initial).map (mirror w.mirrored ·) := by
  have hsaved : q.saved.get v = (p.saved.get v).map (mirror w.mirrored ·) := by
    rw [h.saved, PhaseArray.get_mirror]
  unfold decisionPhase
  cases useTarget with
  | false =>
    simp only [hsaved, Bool.false_eq_true, if_false, pure_bind, Phase.isSet_unset]
    cases p.saved.get v with
    | error e => rfl
    | ok x => exact congrArg Except.ok Phase.overlay_mirror
  | true =>
    have htarget : q.target.get v = (p.target.get v).map (mirror w.mirrored ·) := by
      rw [h.target.entries (hseen rfl), PhaseArray.get_mirror]
    simp only [hsaved, htarget, if_true]
    cases p.target.get v with
    | error e => rfl
    | ok t =>
      by_cases ht : t.isSet = true
      · simp [Except.map, bind, Except.bind, ht, pure, Except.pure]
      · cases p.saved.get v with
        | error e => simp [Except.map, bind, Except.bind, ht]
        | ok x => simp [Except.map, bind, Except.bind, ht, pure, Except.pure, Phase.overlay_mirror]

/-- The phase to decide with is a set target phase or comes from the saved phase. -/
theorem decisionPhase_cases {useTarget : Bool} {initial x : Phase}
    (h : p.decisionPhase v useTarget initial = .ok x) :
    (p.target.get v = .ok x ∧ x.isSet = true) ∨
      ∃ y, p.saved.get v = .ok y ∧ x = initial.overlay y := by
  unfold decisionPhase at h
  cases useTarget with
  | false =>
    cases hsaved : p.saved.get v with
    | error e => simp [hsaved, bind, Except.bind, pure, Except.pure] at h
    | ok y =>
      refine Or.inr ⟨y, rfl, Eq.symm ?_⟩
      simpa [hsaved, bind, Except.bind, pure, Except.pure] using h
  | true =>
    cases htarget : p.target.get v with
    | error e => simp [htarget, bind, Except.bind] at h
    | ok z =>
      by_cases hz : z.isSet = true
      · obtain rfl : z = x := by simpa [htarget, hz, bind, Except.bind, pure, Except.pure] using h
        exact Or.inl ⟨rfl, hz⟩
      · cases hsaved : p.saved.get v with
        | error e => simp [htarget, hz, hsaved, bind, Except.bind] at h
        | ok y =>
          refine Or.inr ⟨y, rfl, Eq.symm ?_⟩
          simpa [htarget, hz, hsaved, bind, Except.bind, pure, Except.pure] using h

/-- If the default is set, so is every phase to decide with. -/
theorem isSet_decisionPhase {useTarget : Bool} {initial x : Phase} (hinitial : initial.isSet = true)
    (h : p.decisionPhase v useTarget initial = .ok x) : x.isSet = true := by
  rcases decisionPhase_cases h with ⟨-, hx⟩ | ⟨y, -, rfl⟩
  · exact hx
  · unfold Phase.overlay
    split
    · assumption
    · exact hinitial

end Phases

/-! ## Stores -/

namespace Store

variable {s t : Store}

theorem assign_matches (h : s.Paired w t) (l : Literal) :
    Matches Eq (Paired w) (onAssignment (Assignment.assign l) s)
      (onAssignment (Assignment.assign (mirror w.mirrored l)) t) := by
  have ha := h.consistent
  unfold onAssignment
  rw [Change.on_run, Change.on_run, h.assignment]
  rcases Assignment.assign_cases ha l with ⟨hl, hrun⟩ | ⟨e, hrun⟩
  · have hl' := (ha.value_mirror (m := w.mirrored)).trans hl
    rw [hrun, Assignment.assign_eq (ha.mirror w.mirrored) hl', Assignment.put_mirror ha hl]
    exact matches_ok rfl ⟨ha.put hl, rfl, h.phases⟩
  · rw [hrun]
    exact matches_error

theorem onPhases_matches {α β : Type} {E : α → β → Prop} {c : Change Phases α}
    {d : Change Phases β} (h : s.Paired w t)
    (hc : Matches E (Phases.Paired w) (c s.phases) (d t.phases)) :
    Matches E (Paired w) (onPhases c s) (onPhases d t) := by
  unfold onPhases
  exact Matches.on hc fun _ _ hp => ⟨h.consistent, h.assignment, hp⟩

theorem saveBest_matches (h : s.Paired w t) : Matches Eq (Paired w) (saveBest s) (saveBest t) := by
  have hrun : saveBest t = onPhases (Phases.saveBest (mirror w.mirrored s.assignment)) t := by
    rw [← h.assignment]
    rfl
  rw [hrun]
  exact onPhases_matches h (Phases.saveBest_matches h.phases)

theorem saveTarget_matches (h : s.Paired w t) :
    Matches Eq (Paired w) (saveTarget s) (saveTarget t) := by
  have hrun : saveTarget t = onPhases (Phases.saveTarget (mirror w.mirrored s.assignment)) t := by
    rw [← h.assignment]
    rfl
  rw [hrun]
  exact onPhases_matches h (Phases.saveTarget_matches h.phases)

theorem unassign_matches (h : s.Paired w t) (v : Variable) :
    Matches (fun p q => q = mirror w.mirrored p) (Paired w)
      (onAssignment (Assignment.unassign v) s) (onAssignment (Assignment.unassign v) t) := by
  have ha := h.consistent
  unfold onAssignment
  rw [Change.on_run, Change.on_run, h.assignment]
  rcases Assignment.unassign_cases ha v with ⟨p, hp, hrun⟩ | ⟨e, hrun⟩
  · have hp' : (mirror w.mirrored s.assignment).varValue v = .ok (mirror w.mirrored p) := by
      rw [Assignment.varValue_mirror, hp]
      rfl
    rw [hrun, Assignment.unassign_eq (ha.mirror w.mirrored) hp', Assignment.freed_mirror]
    exact matches_ok rfl ⟨ha.freed hp, rfl, h.phases⟩
  · rw [hrun]
    exact matches_error

theorem backtrack_matches (h : s.Paired w t) (v : Variable) :
    Matches (fun p q => q = mirror w.mirrored p) (Paired w) (backtrack v s) (backtrack v t) := by
  refine (unassign_matches h v).bind fun p q s' t' _ hpq hst => ?_
  subst hpq
  exact (onPhases_matches hst (Phases.save_matches hst.phases p)).bind
    fun _ _ _ _ _ _ hst' => matches_ok rfl hst'

end Store

/-! ## Trails -/

namespace Search

variable {s t : Search}

theorem Paired.assignment (h : s.Paired w t) : t.assignment = mirror w.mirrored s.assignment :=
  h.solver.store.assignment

theorem Paired.consistent (h : s.Paired w t) : s.assignment.Consistent := h.solver.store.consistent

theorem Paired.assigned (h : s.Paired w t) : t.assignment.assigned = s.assignment.assigned := by
  rw [h.assignment, Assignment.assigned_mirror]

theorem level_mirror (trail : List Entry) : level (trail.map (mirror m ·)) = level trail := by
  unfold level
  rw [List.countP_map]
  refine List.countP_congr fun e _ => ?_
  cases m <;> rfl

theorem onStore_matches {α β : Type} {E : α → β → Prop} {c : Change Store α} {d : Change Store β}
    (h : s.Paired w t)
    (hc : Matches E (Store.Paired w) (c s.solver.store) (d t.solver.store)) :
    Matches E (Paired w) (onStore c s) (onStore d t) := by
  have hsolver : Matches E (Solver.Paired w) (Solver.onStore c s.solver)
      (Solver.onStore d t.solver) := by
    unfold Solver.onStore
    exact Matches.on hc fun _ _ hst =>
      ⟨hst, h.solver.engine, h.solver.useTarget, h.solver.seen, h.solver.initial, h.solver.set⟩
  unfold onStore onSolver
  exact Matches.on hsolver fun _ _ hst => ⟨hst, h.trail, h.bestAssigned, h.targetAssigned⟩

theorem count_matches (h : s.Paired w t) (f : Statistics → Statistics) :
    Matches Eq (Paired w) (onSolver (Solver.count f) s) (onSolver (Solver.count f) t) := by
  rw [count_eq, count_eq]
  refine matches_ok rfl ⟨⟨h.solver.store, ?_, h.solver.useTarget, h.solver.seen, h.solver.initial,
    h.solver.set⟩, h.trail, h.bestAssigned, h.targetAssigned⟩
  simp [counted, statistics, h.solver.engine]

theorem push_matches (h : s.Paired w t) (l : Literal) (r : Reason) :
    Matches Eq (Paired w) (push l r s) (push (mirror w.mirrored l) r t) := by
  refine (onStore_matches h (Store.assign_matches h.solver.store l)).bind ?_
  intro _ _ s' t' _ _ hst
  refine matches_ok rfl ⟨hst.solver, ?_, hst.bestAssigned, hst.targetAssigned⟩
  have hentry : ⟨mirror w.mirrored l, r⟩ = mirror w.mirrored (⟨l, r⟩ : Entry) := by
    cases w.mirrored <;> rfl
  exact congrArg₂ List.cons hentry hst.trail

theorem savePhases_matches (h : s.Paired w t) :
    Matches Eq (Paired w) (savePhases s) (savePhases t) := by
  -- What comes after target phases are dealt with, from whatever state that leaves.
  have best {s t : Search} (h : s.Paired w t) (n : Nat) :
      Matches Eq (Paired w)
        ((do
          if (← get).bestAssigned < n then
            onStore Store.saveBest
            modify fun s => { s with bestAssigned := n } : Change Search Unit) s)
        ((do
          if (← get).bestAssigned < n then
            onStore Store.saveBest
            modify fun s => { s with bestAssigned := n } : Change Search Unit) t) := by
    simp only [Change.bind_run, Change.get_run, h.bestAssigned]
    by_cases hn : s.bestAssigned < n
    · rw [if_pos hn]
      exact (onStore_matches h (Store.saveBest_matches h.solver.store)).bind fun _ _ _ _ _ _ hst =>
        matches_ok rfl ⟨hst.solver, hst.trail, rfl, hst.targetAssigned⟩
    · rw [if_neg hn]
      exact matches_ok rfl h
  unfold savePhases
  simp only [Change.bind_run, Change.get_run, h.targetAssigned, h.assigned]
  by_cases hn : s.targetAssigned < s.assignment.assigned
  · rw [if_pos hn]
    refine (onStore_matches h (Store.saveTarget_matches h.solver.store)).bind ?_
    intro _ _ s' t' _ _ hst
    exact best (s := { s' with targetAssigned := s.assignment.assigned })
      (t := { t' with targetAssigned := s.assignment.assigned })
      ⟨hst.solver, hst.trail, hst.bestAssigned, rfl⟩ _
  · rw [if_neg hn]
    exact best h _

theorem unwind_matches (trail : List Entry) (h : s.Paired w t) :
    Matches Eq (Paired w) (unwind trail s) (unwind (trail.map (mirror w.mirrored ·)) t) := by
  induction trail generalizing s t with
  | nil => exact matches_ok rfl h
  | cons e earlier ih =>
    have hlit : (mirror w.mirrored e).lit = mirror w.mirrored e.lit := by cases w.mirrored <;> rfl
    have hreason : (mirror w.mirrored e).reason = e.reason := by cases w.mirrored <;> rfl
    have hpopped : Paired w { s with trail := earlier }
        { t with trail := earlier.map (mirror w.mirrored ·) } :=
      ⟨h.solver, rfl, h.bestAssigned, h.targetAssigned⟩
    have hback := onStore_matches hpopped
      (Store.backtrack_matches hpopped.solver.store e.lit.var)
    rw [List.map_cons, unwind, unwind, hlit, hreason, Literal.var_mirror, Literal.neg_mirror,
      level_mirror]
    refine hback.bind fun _ _ s' t' _ _ hst => ?_
    by_cases hdecided : e.reason = .decided
    · rw [if_pos hdecided, if_pos hdecided]
      have hflip {s t : Search} (hst : s.Paired w t) :=
        (push_matches hst (-e.lit) .flipped).bind (k := fun _ => pure true)
          (l := fun _ => pure true) (F := Eq) fun _ _ _ _ _ _ hst => matches_ok rfl hst
      by_cases hlevel : level earlier = 0
      · rw [if_pos hlevel, if_pos hlevel]
        exact hflip ⟨hst.solver, hst.trail, hst.bestAssigned, rfl⟩
      · rw [if_neg hlevel, if_neg hlevel]
        exact hflip hst
    · rw [if_neg hdecided, if_neg hdecided]
      exact ih hst

theorem backtrack_matches (h : s.Paired w t) :
    Matches Eq (Paired w) (backtrack s) (backtrack t) := by
  have hrun : backtrack t = unwind (s.trail.map (mirror w.mirrored ·)) t := by
    rw [← h.trail]
    rfl
  rw [hrun]
  exact unwind_matches s.trail h

/-! ## Propagation -/

theorem pass_matches (clauses : List Clause) (h : s.Paired w t) :
    Matches Eq (Paired w) (pass clauses s)
      (pass (clauses.map (·.map (mirror w.mirrored ·))) t) := by
  induction clauses generalizing s t with
  | nil => exact matches_ok rfl h
  | cons c later ih =>
    have hstatus : Clause.status t.assignment (c.map (mirror w.mirrored ·)) =
        (Clause.status s.assignment c).map (mirror w.mirrored ·) := by
      rw [h.assignment, Clause.status_mirror h.consistent]
    rw [List.map_cons, pass, pass]
    simp only [Change.bind_run, Change.read_run, hstatus]
    cases Clause.status s.assignment c with
    | error e => exact matches_error
    | ok r =>
      cases r with
      | satisfied => simpa only [Except.map, ClauseStatus.mirror_satisfied] using ih h
      | undecided => simpa only [Except.map, ClauseStatus.mirror_undecided] using ih h
      | falsified =>
        simp only [Except.map, ClauseStatus.mirror_falsified]
        exact matches_ok rfl h
      | unit l =>
        simp only [Except.map, ClauseStatus.mirror_unit]
        refine (count_matches h .propagate).bind fun _ _ s₁ t₁ _ _ h₁ => ?_
        refine (push_matches h₁ l .implied).bind fun _ _ s₂ t₂ _ _ h₂ => ?_
        refine (ih h₂).bind fun r r' s₃ t₃ _ hr h₃ => ?_
        subst hr
        cases r <;> exact matches_ok rfl h₃

theorem passes_matches (clauses : List Clause) (bound : Nat) (h : s.Paired w t) :
    Matches Eq (Paired w) (passes clauses bound s)
      (passes (clauses.map (·.map (mirror w.mirrored ·))) bound t) := by
  induction bound generalizing s t with
  | zero => exact matches_error
  | succ bound ih =>
    refine (pass_matches clauses h).bind fun r r' s' t' _ hr h' => ?_
    subst hr
    cases r with
    | conflict => exact matches_ok rfl h'
    | settled => exact matches_ok rfl h'
    | changed => exact ih h'

theorem Paired.free (h : s.Paired w t) : t.free = s.free := by
  unfold Search.free
  rw [h.assigned, h.assignment, Assignment.vars_mirror]

theorem propagate_matches (clauses : List Clause) (h : s.Paired w t) :
    Matches Eq (Paired w) (propagate clauses s)
      (propagate (clauses.map (·.map (mirror w.mirrored ·))) t) := by
  refine Matches.get_bind ?_
  rw [h.free]
  exact passes_matches clauses _ h

/-! ## Rounds -/

theorem decide_matches (v : Variable) (h : s.Paired w t) :
    Matches Eq (Paired w) (decide v s) (decide v t) := by
  refine Matches.read_bind fun p hp => ⟨mirror w.mirrored p, ?_, ?_⟩
  · rw [h.solver.useTarget, h.solver.initial,
      Phases.decisionPhase_mirror h.solver.store.phases h.solver.seen, hp]
    rfl
  · -- In a mirror image the phase is set, so it is decided with the opposite sign.
    have hsign := Literal.decided_mirror (v := v) (m := w.mirrored) fun hm =>
      Phases.isSet_decisionPhase (h.solver.set hm) hp
    refine (count_matches h .decide).bind fun _ _ s' t' _ _ h' => ?_
    rw [hsign]
    exact push_matches h' ⟨v, p ≠ .negative⟩ .decided

/-- What one round answers, the other one answers or its mirror image. -/
theorem round_matches (clauses : List Clause) (h : s.Paired w t) :
    Matches (fun r r' => r' = r.map (mirror w.mirrored ·)) (Paired w) (round clauses s)
      (round (clauses.map (·.map (mirror w.mirrored ·))) t) := by
  refine Matches.get_bind ?_
  rw [h.solver.engine]
  by_cases hflag : s.solver.engine.terminated = true
  · rw [if_pos hflag, if_pos hflag]
    refine matches_ok ?_ h
    cases w.mirrored <;> rfl
  · rw [if_neg hflag, if_neg hflag]
    refine (propagate_matches clauses h).bind fun b b' s₁ t₁ _ hb h₁ => ?_
    subst hb
    cases b with
    | true =>
      have hfirst : t₁.assignment.firstUnassigned = s₁.assignment.firstUnassigned := by
        rw [h₁.assignment, Assignment.firstUnassigned_mirror]
      rw [if_pos rfl]
      refine Matches.get_bind ?_
      rw [hfirst]
      cases hnext : s₁.assignment.firstUnassigned with
      | none =>
        refine Matches.get_bind (matches_ok ?_ h₁)
        rw [h₁.assignment, Assignment.model_mirror hnext]
        exact congrArg some Outcome.mirror_sat.symm
      | some v =>
        exact (decide_matches v h₁).bind fun _ _ _ _ _ _ h₂ => matches_ok rfl h₂
    | false =>
      refine (count_matches h₁ .conflict).bind fun _ _ s₂ t₂ _ _ h₂ => ?_
      refine (savePhases_matches h₂).bind fun _ _ s₃ t₃ _ _ h₃ => ?_
      refine (backtrack_matches h₃).bind fun b b' s₄ t₄ _ hb h₄ => ?_
      subst hb
      cases b with
      | true => exact matches_ok rfl h₄
      | false =>
        refine matches_ok ?_ h₄
        cases w.mirrored <;> rfl

theorem rounds_matches (clauses : List Clause) (k : Nat) (h : s.Paired w t) :
    Matches (fun r r' => r' = r.map (mirror w.mirrored ·)) (Paired w) (rounds clauses k s)
      (rounds (clauses.map (·.map (mirror w.mirrored ·))) k t) := by
  induction k generalizing s t with
  | zero => exact round_matches clauses h
  | succ k ih =>
    refine (ih h).bind fun r r' s' t' _ hr h' => ?_
    subst hr
    cases r with
    | some o => exact matches_ok rfl h'
    | none => exact ih h'

theorem finish_matches (clauses : List Clause) (h : s.Paired w t) :
    Matches (fun o o' => o' = mirror w.mirrored o) (Paired w) (finish clauses s)
      (finish (clauses.map (·.map (mirror w.mirrored ·))) t) := by
  refine Matches.get_bind ?_
  rw [h.free]
  refine (rounds_matches clauses _ h).bind fun r r' s' t' _ hr h' => ?_
  subst hr
  cases r with
  | some o => exact matches_ok rfl h'
  | none => exact matches_error

end Search

/-- **A search is matched by a paired one**, with the same answer or its mirror image. -/
theorem Solver.search_matches (f : Formula) {s t : Solver} (h : s.Paired w t) :
    Matches (fun o o' => o' = mirror w.mirrored o) (Paired w) (search f s)
      (search (mirror w.mirrored f) t) := by
  have hvars : t.vars = s.vars := by
    unfold vars
    rw [h.store.assignment, Assignment.vars_mirror]
  have hsize : (mirror w.mirrored f).vars = f.vars := by cases w.mirrored <;> rfl
  have hclauses :
      (mirror w.mirrored f).clauses = f.clauses.map (·.map (mirror w.mirrored ·)) := by
    cases w.mirrored
    · simp
    · rfl
  have hstart : Search.Paired w { solver := { s with locked := true } }
      { solver := { t with locked := true } } :=
    ⟨⟨h.store, h.engine, h.useTarget, h.seen, h.initial, h.set⟩, rfl, rfl, rfl⟩
  refine Matches.get_bind ?_
  rw [hvars, hsize, hclauses]
  by_cases hfits : s.vars = f.vars
  · simp only [Change.bind_run, Change.ensure_run hfits]
    exact Matches.on (Search.finish_matches f.clauses hstart) fun _ _ h => h.solver
  · simp only [Change.bind_run, Change.ensure, if_neg hfits]
    exact matches_error

/-- **Paired searches end alike.** -/
theorem Solver.search_of_paired {f : Formula} {s t : Solver} (hf : f.WellFormed)
    (hs : s.SizedTo f) (h : s.Paired w t) :
    ∃ o u v, search f s = .ok o u ∧ search (mirror w.mirrored f) t = .ok (mirror w.mirrored o) v ∧
      u.Paired w v := by
  obtain ⟨-, o, u, -, -, hu, -⟩ := search_ends hf hs
  obtain ⟨o', v, hv, rfl, huv⟩ := search_matches f h hu
  exact ⟨o, u.solver, v, hu, hv, huv⟩

end Polarity
