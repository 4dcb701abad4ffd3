import Mathlib.Algebra.Ring.Nat
import Polarity.Proofs.Search.Propagation
import Polarity.Search.Run

/-!
# The rounds of a search

**One round** (`Turn`). All that a round can do, with the state that it leaves: stop on the flag,
find a model, decide a variable, flip the latest open decision, or find that there is none.
`round_turn` says that a round always does one of these things.

**Many rounds** (`iterate`). A search is bounded by rounds that are doubled again and again, which
is the same as so many rounds one after the other (`rounds_eq_iterate`). So what holds at the start
and is kept by a round holds after any number of rounds (`iterate_spec`), and what some number of
rounds answer is what a search answers (`Solver.search_eq`).
-/

namespace Polarity

namespace Search

/-! ## One round -/

/-- The search with one more decision made. -/
def decidedOn (l : Literal) (s : Search) : Search := (s.counted .decide).pushed l .decided

/-- The search after a conflict, before it goes back. -/
def conflicted (s : Search) : Search := (s.counted .conflict).recorded

/-- No entry can still be flipped. -/
def Closed (trail : List Entry) : Prop := ∀ e ∈ trail, e.reason ≠ .decided

/-- What a round can do, where `a` is the assignment before the trail. -/
inductive Turn (clauses : List Clause) (a : Assignment) (s : Search) :
    Option Outcome → Search → Prop
  | stopped (flag : s.solver.engine.terminated = true) : Turn clauses a s (some .unknown) s
  | model {t : Search} (flag : s.solver.engine.terminated = false) (draws : Draws clauses s t)
      (quiet : Quiet clauses t.assignment) (full : t.assignment.firstUnassigned = none) :
      Turn clauses a s (some (.sat t.assignment.model)) t
  | decided {t : Search} {v : Variable} {p : Phase} (flag : s.solver.engine.terminated = false)
      (draws : Draws clauses s t) (first : t.assignment.firstUnassigned = some v)
      (sign : t.phases.decisionPhase v t.solver.options.target t.solver.options.initialPhase =
        .ok p) :
      Turn clauses a s none (t.decidedOn ⟨v, p ≠ .negative⟩)
  | flipped {t : Search} {gone earlier : List Entry} {l : Literal}
      (flag : s.solver.engine.terminated = false) (draws : Draws clauses s t)
      (refutes : Refutes clauses t.assignment) (trail : t.trail = gone ++ ⟨l, .decided⟩ :: earlier)
      (closed : Closed gone) : Turn clauses a s none (t.conflicted.flipped a gone l earlier)
  | refuted {t : Search} (flag : s.solver.engine.terminated = false) (draws : Draws clauses s t)
      (refutes : Refutes clauses t.assignment) (closed : Closed t.trail) :
      Turn clauses a s (some .unsat) (t.conflicted.takenBack a t.trail [])

variable {a : Assignment} {clauses : List Clause} {s t : Search} {r : Option Outcome} {m n : Nat}

theorem exists_open_or_closed (trail : List Entry) :
    (∃ gone l earlier, trail = gone ++ ⟨l, .decided⟩ :: earlier ∧ Closed gone) ∨ Closed trail := by
  induction trail with
  | nil => exact Or.inr fun e he => absurd he List.not_mem_nil
  | cons e trail ih =>
    by_cases he : e.reason = .decided
    · obtain ⟨l, r⟩ := e
      obtain rfl : r = .decided := he
      exact Or.inl ⟨[], l, trail, rfl, fun e he => absurd he List.not_mem_nil⟩
    · rcases ih with ⟨gone, l, earlier, rfl, hg⟩ | hg
      · exact Or.inl ⟨e :: gone, l, earlier, rfl, List.forall_mem_cons.2 ⟨he, hg⟩⟩
      · exact Or.inr (List.forall_mem_cons.2 ⟨he, hg⟩)

theorem Grounded.conflicted (hs : s.Grounded a) : s.conflicted.Grounded a := by
  have hlen : s.assignment.varValues.length = a.vars := by
    rw [Assignment.length_varValues, hs.vars_assignment]
  refine ⟨hs.consistent, hs.assignment, hs.fits, ?_, hs.sized.saved, ?_⟩
  · show (ite _ _ _ : PhaseArray).size = _
    split
    · exact (PhaseArray.size_overlaid (hs.sized.best.trans hlen.symm)).trans hs.sized.best
    · exact hs.sized.best
  · show (ite _ _ _ : PhaseArray).size = _
    split
    · exact (PhaseArray.size_overlaid (hs.sized.target.trans hlen.symm)).trans hs.sized.target
    · exact hs.sized.target

theorem save_conflict_eq (hs : s.Grounded a) :
    savePhases (s.counted .conflict) = .ok () s.conflicted := by
  have hs' := hs.counted .conflict
  exact savePhases_eq (hs'.sized.target.trans hs'.vars_assignment.symm)
    (hs'.sized.best.trans hs'.vars_assignment.symm)

theorem decide_eq (hs : s.Grounded a) {v : Variable} {p : Phase}
    (hv : s.assignment.varValue v = .ok .unset)
    (hp : s.phases.decisionPhase v s.solver.options.target s.solver.options.initialPhase = .ok p) :
    decide v s = .ok () (s.decidedOn ⟨v, p ≠ .negative⟩) := by
  have hfree : s.assignment.value ⟨v, p ≠ .negative⟩ = .ok .unset :=
    hs.assignment_consistent.value_unset_of_var hv rfl
  have hpush := push_eq (hs.counted .decide).assignment_consistent hfree .decided
  unfold phases at hp
  simp only [decide, Change.bind_run, Change.read_run, hp, count_eq, hpush]
  rfl

/-- Without a conflict, a round finds a model or decides the first free variable. -/
theorem round_of_quiet (ht : t.Grounded a) (hflag : s.solver.engine.terminated = false)
    (hrun : propagate clauses s = .ok true t) :
    (t.assignment.firstUnassigned = none ∧
        round clauses s = .ok (some (.sat t.assignment.model)) t) ∨
      ∃ v p, t.assignment.firstUnassigned = some v ∧
        t.phases.decisionPhase v t.solver.options.target t.solver.options.initialPhase = .ok p ∧
        round clauses s = .ok none (t.decidedOn ⟨v, p ≠ .negative⟩) := by
  cases hfirst : t.assignment.firstUnassigned with
  | none => exact Or.inl ⟨rfl, by simp [round, hflag, hrun, hfirst]⟩
  | some v =>
    have hv := ht.assignment_consistent.firstUnassigned_eq_some hfirst
    have hlt := ht.vars_assignment ▸ ht.assignment_consistent.var_lt hv
    obtain ⟨p, hp⟩ := Phases.exists_decisionPhase ht.sized hlt t.solver.options.target
      t.solver.options.initialPhase
    exact Or.inr ⟨v, p, rfl, hp, by simp [round, hflag, hrun, hfirst, decide_eq ht hv hp]⟩

/-- After a conflict, a round flips the latest open decision, or finds that there is none. -/
theorem round_of_conflict (ht : t.Grounded a) (hflag : s.solver.engine.terminated = false)
    (hrun : propagate clauses s = .ok false t) :
    (∃ gone l earlier, t.trail = gone ++ ⟨l, .decided⟩ :: earlier ∧ Closed gone ∧
        round clauses s = .ok none (t.conflicted.flipped a gone l earlier)) ∨
      (Closed t.trail ∧
        round clauses s = .ok (some .unsat) (t.conflicted.takenBack a t.trail [])) := by
  -- What is left of the round depends on whether a decision is open.
  have hround : round clauses s =
      (do if ← backtrack then return none else return some .unsat : Change Search _)
        t.conflicted := by
    simp [round, hflag, hrun, count_eq, save_conflict_eq ht]
  rcases exists_open_or_closed t.trail with ⟨gone, l, earlier, htrail, hclosed⟩ | hclosed
  · have hback := backtrack_eq_flip ht.conflicted htrail hclosed
    exact Or.inl ⟨gone, l, earlier, htrail, hclosed, by simp [hround, hback]⟩
  · have hback := backtrack_eq_empty ht.conflicted hclosed
    exact Or.inr ⟨hclosed, by simp [hround, hback]; rfl⟩

/-- **A round always ends, in one of the ways that `Turn` lists.** -/
theorem round_turn (hs : s.Grounded a) (hcl : Covers a.vars clauses) :
    ∃ r t, round clauses s = .ok r t ∧ Turn clauses a s r t := by
  by_cases hflag : s.solver.engine.terminated = true
  · exact ⟨some .unknown, s, by simp [round, hflag], .stopped hflag⟩
  · obtain ⟨b, t, ht, hdraws, hend⟩ := propagate_spec (hs.ready hcl)
    have hgt := hs.draws hcl hdraws
    have hflag' := Bool.not_eq_true _ ▸ hflag
    cases b with
    | true =>
      rcases round_of_quiet hgt hflag' ht with ⟨hfirst, hround⟩ | ⟨v, p, hfirst, hp, hround⟩
      · exact ⟨_, t, hround, .model hflag' hdraws hend hfirst⟩
      · exact ⟨none, _, hround, .decided hflag' hdraws hfirst hp⟩
    | false =>
      rcases round_of_conflict hgt hflag' ht with ⟨gone, l, earlier, htrail, hclosed, hround⟩ |
        ⟨hclosed, hround⟩
      · exact ⟨none, _, hround, .flipped hflag' hdraws hend htrail hclosed⟩
      · exact ⟨some .unsat, _, hround, .refuted hflag' hdraws hend hclosed⟩

theorem Turn.grounded (h : Turn clauses a s r t) (hs : s.Grounded a)
    (hcl : Covers a.vars clauses) : t.Grounded a := by
  cases h with
  | stopped => exact hs
  | model _ hdraws => exact hs.draws hcl hdraws
  | @decided u v p _ hdraws hfirst =>
    have hg := hs.draws hcl hdraws
    have hv := hg.assignment_consistent.firstUnassigned_eq_some hfirst
    have hfree : u.assignment.value ⟨v, p ≠ .negative⟩ = .ok .unset :=
      hg.assignment_consistent.value_unset_of_var hv rfl
    exact (hg.counted .decide).pushed hfree .decided
  | flipped _ hdraws _ htrail =>
    have hg := (hs.draws hcl hdraws).conflicted
    have hback := hg.takenBack (htrail.trans (List.append_cons ..))
    have hl := (hg.takenBack htrail).fits.1
    have h := hback.pushed ((hback.fits.consistent hs.consistent).opposite _ _ hl) .flipped
    exact ⟨h.consistent, h.assignment, h.fits, h.sized⟩
  | refuted _ hdraws =>
    exact (hs.draws hcl hdraws).conflicted.takenBack (List.append_nil _).symm

/-- Rounds leave the stop flag alone. -/
theorem Turn.terminated (h : Turn clauses a s r t) :
    t.solver.engine.terminated = s.solver.engine.terminated := by
  cases h with
  | stopped => rfl
  | model _ hdraws => exact hdraws.kept.terminated
  | decided _ hdraws => exact hdraws.kept.terminated
  | flipped _ hdraws => exact hdraws.kept.terminated
  | refuted _ hdraws => exact hdraws.kept.terminated

/-! ## Many rounds -/

/-- So many rounds one after the other, or fewer if one of them has a result. -/
def iterate (clauses : List Clause) : Nat → Change Search (Option Outcome)
  | 0 => return none
  | n + 1 => do
    match ← round clauses with
    | some outcome => return some outcome
    | none => iterate clauses n

theorem iterate_add (m n : Nat) :
    iterate clauses (m + n) = (do
      match ← iterate clauses m with
      | some outcome => return some outcome
      | none => iterate clauses n) := by
  funext s
  induction m generalizing s with
  | zero => simp [iterate]
  | succ m ih =>
    rw [Nat.succ_add]
    simp only [iterate, Change.bind_run]
    cases round clauses s with
    | error e t => rfl
    | ok r t => cases r with
      | none => simpa using ih t
      | some o => rfl

theorem iterate_succ (h : iterate clauses n s = .ok none t) :
    iterate clauses (n + 1) s = round clauses t := by
  rw [iterate_add]
  simp only [Change.bind_run, h, iterate]
  cases round clauses t with
  | error e u => rfl
  | ok r u => cases r <;> rfl

/-- A result is not changed by more rounds. -/
theorem iterate_mono {o : Outcome} (h : iterate clauses m s = .ok (some o) t) (hmn : m ≤ n) :
    iterate clauses n s = .ok (some o) t := by
  obtain ⟨d, rfl⟩ := Nat.exists_eq_add_of_le hmn
  rw [iterate_add]
  simp [h]

theorem rounds_eq_iterate (k : Nat) : rounds clauses k = iterate clauses (2 ^ k) := by
  induction k with
  | zero =>
    funext s
    exact (iterate_succ rfl).symm
  | succ k ih =>
    rw [Nat.pow_succ, Nat.mul_two, iterate_add, ← ih]
    rfl

/-- **What holds along a run.** If `P` holds at the start, and each round keeps it or ends with `Q`,
then rounds never fail, and either `P` holds after them or one of them has ended with `Q`. -/
theorem iterate_spec {P : Nat → Search → Prop} {Q : Nat → Outcome → Search → Prop}
    (hs : s.Grounded a) (hcl : Covers a.vars clauses) (hstart : P 0 s)
    (hround : ∀ {k t r u}, iterate clauses k s = .ok none t → t.Grounded a → P k t →
      round clauses t = .ok r u → Turn clauses a t r u →
      match r with
      | none => P (k + 1) u
      | some o => Q (k + 1) o u) (n : Nat) :
    ∃ r t, iterate clauses n s = .ok r t ∧ t.Grounded a ∧
      match r with
      | none => P n t
      | some o => ∃ k ≤ n, iterate clauses k s = .ok (some o) t ∧ Q k o t := by
  induction n with
  | zero => exact ⟨none, s, rfl, hs, hstart⟩
  | succ n ih =>
    obtain ⟨r, t, ht, hg, h⟩ := ih
    cases r with
    | none =>
      obtain ⟨r, u, hu, hturn⟩ := round_turn hg hcl
      have hnext := hround ht hg h hu hturn
      have hn : iterate clauses (n + 1) s = .ok r u := (iterate_succ ht).trans hu
      refine ⟨r, u, hn, hturn.grounded hg hcl, ?_⟩
      cases r with
      | none => exact hnext
      | some o => exact ⟨n + 1, Nat.le_refl _, hn, hnext⟩
    | some o =>
      obtain ⟨k, hk, hdone, hq⟩ := h
      exact ⟨some o, t, iterate_mono ht n.le_succ, hg, k, Nat.le_succ_of_le hk, hdone, hq⟩

/-! ## The search as a whole -/

/-- A search at its beginning. -/
def start (s : Solver) : Search := { solver := { s with locked := true } }

end Search

open Search

variable {f : Formula} {clauses : List Clause} {s : Solver} {t : Search} {o : Outcome} {n : Nat}

/-- A solver that is ready to search for a model of the formula, with any values and phases. -/
structure Solver.SizedTo (f : Formula) (s : Solver) : Prop where
  consistent : s.store.assignment.Consistent
  vars : s.vars = f.vars
  phases : s.store.phases.Sized f.vars

theorem Solver.SizedTo.vars_assignment (hs : s.SizedTo f) : s.store.assignment.vars = f.vars :=
  hs.vars

theorem Solver.SizedTo.grounded (hs : s.SizedTo f) :
    (start s).Grounded s.store.assignment where
  consistent := hs.consistent
  assignment := rfl
  fits := trivial
  sized := by
    rw [hs.vars_assignment]
    exact hs.phases

theorem Solver.SizedTo.covers (hs : s.SizedTo f) (hf : f.WellFormed) :
    Covers s.store.assignment.vars f.clauses := by
  rw [hs.vars_assignment]
  exact hf.var_lt

/-- A solver of so many variables with no values and nothing remembered. -/
def Solver.blank (options : Options) (n : Nat) : Solver where
  options := options
  store.assignment := .blank n
  store.phases.best := ⟨Array.replicate n .unset⟩
  store.phases.saved := ⟨Array.replicate n .unset⟩
  store.phases.target := ⟨Array.replicate n .unset⟩

theorem Solver.sizedTo_blank (options : Options) (f : Formula) :
    (blank options f.vars).SizedTo f where
  consistent := .blank f.vars
  vars := Assignment.vars_blank f.vars
  phases := ⟨Array.size_replicate, Array.size_replicate, Array.size_replicate⟩

/-- Two clauses that rule out the first of two variables. -/
def Formula.refusal : Formula where
  vars := 2
  clauses := [[⟨⟨0⟩, false⟩, ⟨⟨1⟩, true⟩], [⟨⟨0⟩, false⟩, ⟨⟨1⟩, false⟩]]

theorem Formula.wellFormed_refusal : refusal.WellFormed := ⟨by decide, by decide⟩

theorem Search.finish_eq {s : Search} (h : iterate clauses n s = .ok (some o) t)
    (hn : n ≤ 2 ^ (s.free + 1)) : finish clauses s = .ok o t := by
  have hrounds : rounds clauses (s.free + 1) s = .ok (some o) t := by
    rw [rounds_eq_iterate]
    exact iterate_mono h hn
  simp [finish, hrounds]

/-- A result that comes in time is what the search answers. -/
theorem Solver.search_eq (hs : s.SizedTo f) (h : iterate f.clauses n (start s) = .ok (some o) t)
    (hn : n ≤ 2 ^ ((start s).free + 1)) : search f s = .ok o t.solver := by
  have hfinish := finish_eq h hn
  rw [start] at hfinish
  simp [search, Change.ensure_run hs.vars, startSearch, hfinish]

end Polarity
