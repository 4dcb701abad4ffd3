import Mathlib.Tactic.ByContra
import Polarity.Proofs.Search.Stability

/-!
# A search and its flag

A search looks at the flag of its own solver at the beginning of each round, and nothing that a search
or any other task does sets or clears it (`keeps_terminated_perform`). So a search answers that it
was stopped just in case the flag was set before it, whatever the state of the solver
(`search_eq_unknown_iff`), and then it has done nothing (`search_of_terminated`).
-/

namespace Polarity

open Change

variable {f : Formula} {clauses : List Clause}

namespace Solver

/-- No task sets or clears the flag. -/
theorem durable_terminated (b : Bool) : Durable fun s => s.engine.terminated = b where
  count _ := keeps_modify fun _ hs => hs
  assign _ := keeps_onStore_of_rest (fun _ _ hs => hs) _
  saveBest := keeps_onStore_of_rest (fun _ _ hs => hs) _
  saveTarget := keeps_onStore_of_rest (fun _ _ hs => hs) _
  backtrack _ := keeps_onStore_of_rest (fun _ _ hs => hs) _
  lock _ hs := hs
  file _ _ hs := hs
  apply _ := keeps_onStore_of_rest (fun _ _ hs => hs) _

theorem keeps_terminated_perform (b : Bool) (read : Reader) (task : Task) :
    Keeps (fun s : Solver => s.engine.terminated = b) (perform read task) :=
  (durable_terminated b).keeps_perform read
    (fun n _ => keeps_resize_of_rest (fun _ _ hs => hs) n)
    fun _ _ => keeps_onStore_of_rest (fun _ _ hs => hs) _

end Solver

namespace Search

variable {s t : Search}

/-! ## A flag that is set -/

theorem round_of_terminated (hs : s.solver.engine.terminated = true) :
    round clauses s = .ok (some .unknown) s := by
  simp [round, hs]

theorem rounds_of_terminated (hs : s.solver.engine.terminated = true) (k : Nat) :
    rounds clauses k s = .ok (some .unknown) s := by
  induction k with
  | zero => exact round_of_terminated hs
  | succ k ih => simp [rounds, ih]

theorem finish_of_terminated (clauses : List Clause) (hs : s.solver.engine.terminated = true) :
    finish clauses s = .ok .unknown s := by
  simp [finish, rounds_of_terminated hs]

/-! ## A flag that is not set -/

theorem round_ne_unknown (hs : s.solver.engine.terminated = false) :
    round clauses s ≠ .ok (some .unknown) t := by
  cases hpropagate : propagate clauses s with
  | error e u => simp [round, hs, hpropagate]
  | ok quiet u =>
    cases quiet with
    | true =>
      cases hfirst : u.assignment.firstUnassigned with
      | none => simp [round, hs, hpropagate, hfirst]
      | some v => cases hdecide : decide v u <;> simp [round, hs, hpropagate, hfirst, hdecide]
    | false =>
      cases hcount : onSolver (Solver.count .conflict) u with
      | error e v => simp [round, hs, hpropagate, hcount]
      | ok _ v =>
        cases hsave : savePhases v with
        | error e w => simp [round, hs, hpropagate, hcount, hsave]
        | ok _ w =>
          cases hback : backtrack w with
          | error e x => simp [round, hs, hpropagate, hcount, hsave, hback]
          | ok more x => cases more <;> simp [round, hs, hpropagate, hcount, hsave, hback]

theorem rounds_ne_unknown (hs : s.solver.engine.terminated = false) (k : Nat) :
    rounds clauses k s ≠ .ok (some .unknown) t := by
  induction k generalizing s t with
  | zero => exact round_ne_unknown hs
  | succ k ih =>
    have hkept := keeps_rounds (Solver.durable_terminated false).toStable clauses k s hs
    unfold carry at hkept
    cases hrounds : rounds clauses k s with
    | error e u => simp [rounds, hrounds]
    | ok r u =>
      rw [hrounds] at hkept
      cases r with
      | none =>
        have hrun : rounds clauses (k + 1) s = rounds clauses k u := by simp [rounds, hrounds]
        rw [hrun]
        exact ih hkept
      | some o =>
        have hrun : rounds clauses (k + 1) s = .ok (some o) u := by simp [rounds, hrounds]
        rw [hrun, ← hrounds]
        exact ih hs

theorem finish_ne_unknown (clauses : List Clause) (hs : s.solver.engine.terminated = false) :
    finish clauses s ≠ .ok .unknown t := by
  cases hrun : rounds clauses (s.free + 1) s with
  | error e u => simp [finish, hrun]
  | ok r u =>
    cases r with
    | none => simp [finish, hrun]
    | some o =>
      have ho : o ≠ .unknown := fun ho => rounds_ne_unknown hs (s.free + 1) (ho ▸ hrun)
      simp [finish, hrun, ho]

end Search

namespace Solver

variable {s t : Solver}

/-! ## Searches -/

/-- A search whose flag is set closes the window for hints and does nothing else. -/
theorem search_of_terminated (hvars : s.vars = f.vars) (hs : s.engine.terminated = true) :
    search f s = .ok .unknown { s with locked := true } := by
  have hfinish := Search.finish_of_terminated f.clauses
    (s := { solver := { s with locked := true } }) hs
  simp [search_run hvars, hfinish]

/-- **A search was stopped just in case its flag was set before it.** -/
theorem search_eq_unknown_iff (hvars : s.vars = f.vars) :
    (∃ t, search f s = .ok .unknown t) ↔ s.engine.terminated = true := by
  refine ⟨fun ⟨t, hsearch⟩ => ?_, fun hs => ⟨_, search_of_terminated hvars hs⟩⟩
  by_contra hs
  rw [Bool.not_eq_true] at hs
  cases hrun : Search.finish f.clauses { solver := { s with locked := true } } with
  | error e u => simp [search_run hvars, hrun] at hsearch
  | ok o u =>
    obtain ⟨rfl, -⟩ : o = .unknown ∧ u.solver = t := by simpa [search_run hvars, hrun] using hsearch
    exact Search.finish_ne_unknown f.clauses hs hrun

end Solver

end Polarity
