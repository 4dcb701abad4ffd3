import Polarity.Proofs.Assignment.Updates
import Polarity.Proofs.Search.Stability
import Polarity.Proofs.Solver.Preparation
import Polarity.Solver.Task

/-!
# Both halves of a store have one size

A store is *aligned* when its assignment is consistent and all arrays of phases have one entry for
each variable of it. A fresh store is. An operation that does not resize one half alone keeps it so,
whether or not it fails: it either works on values and phases within their sizes, or it resizes both
halves, which never fails in between (`Solver.resize_cases`, `Solver.aligned_perform`).
-/

namespace Polarity

open Change

variable {b : PhaseArray} {p : Phases} {n m : Nat}

/-! ## Resizing phases -/

/-- The array cut or extended to so many variables. -/
def PhaseArray.resized (n : Nat) (b : PhaseArray) : PhaseArray :=
  ⟨b.entries.extract 0 n ++ Array.replicate (n - b.size) .unset⟩

/-- The phases cut or extended to so many variables. -/
def Phases.resized (n : Nat) (p : Phases) : Phases :=
  ⟨p.best.resized n, p.saved.resized n, p.target.resized n⟩

namespace PhaseArray

@[simp] theorem size_resized : (b.resized n).size = n := by
  simp [resized, size]
  omega

theorem resized_of_le (h : b.size ≤ n) :
    b.resized n = ⟨b.entries ++ Array.replicate (n - b.size) .unset⟩ := by
  rw [resized, Array.extract_eq_self_of_le h]

theorem shrink_eq (h : n < b.size) : shrink n b = .ok () (b.resized n) := by
  have hnone : n - b.size = 0 := Nat.sub_eq_zero_of_le (Nat.le_of_lt h)
  simp [shrink, Change.ensure_run h, resized, hnone]

end PhaseArray

namespace Phases

theorem sized_resized (n : Nat) (p : Phases) : (p.resized n).Sized n :=
  ⟨PhaseArray.size_resized, PhaseArray.size_resized, PhaseArray.size_resized⟩

theorem resized_self (hp : p.Sized n) : p.resized n = p := by
  have hsame {b : PhaseArray} (hb : b.size = n) : b.resized n = b := by
    subst hb
    rw [PhaseArray.resized_of_le (Nat.le_refl _)]
    simp
  unfold resized
  rw [hsame hp.best, hsame hp.saved, hsame hp.target]

theorem grow_resized (hp : p.Sized m) (h : m < n) (hn : n < Memory.limit) :
    grow n p = .ok () (p.resized n) := by
  have hsize : p.size = m := hp.best
  rw [grow_eq (hsize ▸ hp) (hsize ▸ h) hn, resized]
  rw [PhaseArray.resized_of_le (hp.best.trans_le (Nat.le_of_lt h)),
    PhaseArray.resized_of_le (hp.saved.trans_le (Nat.le_of_lt h)),
    PhaseArray.resized_of_le (hp.target.trans_le (Nat.le_of_lt h)), hp.best, hp.saved, hp.target,
    hsize]

theorem shrink_resized (hp : p.Sized m) (h : n < m) : shrink n p = .ok () (p.resized n) := by
  have hsize : n < p.size := by rwa [size, hp.best]
  have hb := PhaseArray.shrink_eq (hp.best ▸ h)
  have hs := PhaseArray.shrink_eq (hp.saved ▸ h)
  have ht := PhaseArray.shrink_eq (hp.target ▸ h)
  simp [shrink, Change.ensure_run hsize, onBest, onSaved, onTarget, hb, hs, ht, resized]

/-! ## Operations on phases keep their sizes -/

theorem keeps_sized_saveBest (a : Assignment) : Keeps (Sized n) (saveBest a) := by
  intro p hp
  by_cases hsize : p.best.size = a.vars
  · rw [carry, saveBest_eq hsize]
    have hlength := hsize.trans Assignment.length_varValues.symm
    exact ⟨(PhaseArray.size_overlaid hlength).trans hp.best, hp.saved, hp.target⟩
  · simpa [carry, saveBest, Change.ensure, hsize] using hp

theorem keeps_sized_saveTarget (a : Assignment) : Keeps (Sized n) (saveTarget a) := by
  intro p hp
  by_cases hsize : p.target.size = a.vars
  · rw [carry, saveTarget_eq hsize]
    have hlength := hsize.trans Assignment.length_varValues.symm
    exact ⟨hp.best, hp.saved, (PhaseArray.size_overlaid hlength).trans hp.target⟩
  · simpa [carry, saveTarget, Change.ensure, hsize] using hp

theorem keeps_sized_save (v : Variable) (value : Phase) : Keeps (Sized n) (save v value) := by
  refine keeps_ite _ ?_ (keeps_pure ())
  intro p hp
  by_cases hv : v.index < p.saved.size
  · simp only [carry, onSaved, on_run, PhaseArray.set_eq hv]
    exact ⟨hp.best, PhaseArray.size_written.trans hp.saved, hp.target⟩
  · simpa [carry, onSaved, PhaseArray.set, Change.ensure, hv] using hp

theorem keeps_sized_apply (h : Hint) : Keeps (Sized n) (apply h) := by
  intro p hp
  by_cases hsize : h.size = p.size
  · rw [carry, apply_eq hsize]
    have hlength : p.size = h.phases.length := hsize.symm
    exact ⟨(PhaseArray.size_overlaid hlength).trans hp.best, hp.saved,
      (PhaseArray.size_overlaid (hp.target.trans (hp.best.symm.trans hlength))).trans hp.target⟩
  · simpa [carry, apply, Change.ensure, hsize] using hp

end Phases

/-! ## Stores -/

/-- The assignment is consistent, and it and the phases have so many variables. -/
structure Store.Aligned (n : Nat) (s : Store) : Prop where
  assignment : s.assignment.Spans n
  phases : s.phases.Sized n

namespace Store

variable {α : Type}

theorem keeps_onAssignment {c : Change Assignment α} (hc : Keeps (Assignment.Spans n) c) :
    Keeps (Aligned n) (onAssignment c) :=
  hc.on (fun _ h => h.assignment) fun _ _ h ha => ⟨ha, h.phases⟩

theorem keeps_onPhases {c : Change Phases α} (hc : Keeps (Phases.Sized n) c) :
    Keeps (Aligned n) (onPhases c) :=
  hc.on (fun _ h => h.phases) fun _ _ h hp => ⟨h.assignment, hp⟩

theorem keeps_saveBest : Keeps (Aligned n) saveBest :=
  keeps_get.bind fun s => keeps_onPhases (Phases.keeps_sized_saveBest s.assignment)

theorem keeps_saveTarget : Keeps (Aligned n) saveTarget :=
  keeps_get.bind fun s => keeps_onPhases (Phases.keeps_sized_saveTarget s.assignment)

theorem keeps_backtrack (v : Variable) : Keeps (Aligned n) (backtrack v) := by
  refine (keeps_onAssignment (Assignment.keeps_spans_unassign v)).bind fun p => ?_
  exact (keeps_onPhases (Phases.keeps_sized_save v p)).bind fun _ => keeps_pure p

/-- The call does not resize one half alone. -/
def Call.keepsHalves : Call → Bool
  | .grow _ | .shrink _ | .resizeAssignment _ => false
  | _ => true

theorem keeps_call {c : Call} (hc : c.keepsHalves = true) : Keeps (Aligned n) (call c) := by
  cases c with
  | grow | shrink | resizeAssignment => exact absurd hc nofun
  | saveBest => exact keeps_saveBest.bind fun _ => keeps_pure _
  | saveTarget => exact keeps_saveTarget.bind fun _ => keeps_pure _
  | save v value =>
    exact (keeps_onPhases (Phases.keeps_sized_save v value)).bind fun _ => keeps_pure _
  | apply text =>
    refine (keeps_read _).bind fun h => ?_
    exact (keeps_onPhases (Phases.keeps_sized_apply h)).bind fun _ => keeps_pure _
  | decision v useTarget initial => exact (keeps_read _).bind fun _ => keeps_pure _
  | backtrack v => exact (keeps_backtrack v).bind fun _ => keeps_pure _
  | assign l =>
    exact (keeps_onAssignment (Assignment.keeps_spans_assign l)).bind fun _ => keeps_pure _
  | unassign v =>
    exact (keeps_onAssignment (Assignment.keeps_spans_unassign v)).bind fun _ => keeps_pure _
  | value l => exact (keeps_read _).bind fun _ => keeps_pure _
  | varValue v => exact (keeps_read _).bind fun _ => keeps_pure _
  | firstUnassigned => exact keeps_get.bind fun _ => keeps_pure _

end Store

/-! ## Solvers -/

namespace Solver

variable {s : Solver} {α : Type}

/-- Both halves of the store have the size of the solver. -/
def Aligned (s : Solver) : Prop := s.store.Aligned s.vars

/-- The solver cut or extended to so many variables. -/
def resized (n : Nat) (s : Solver) : Solver :=
  { s with
    store.assignment := s.store.assignment.resized n
    store.phases := s.store.phases.resized n }

/-- **Resizing is refused for more variables than can be numbered, and else succeeds.** -/
theorem resize_cases (hs : s.Aligned) (n : Nat) :
    (Variable.limit < n ∧ resize n s = .error (.error (.tooManyVariables n)) s) ∨
      n ≤ Variable.limit ∧ resize n s = .ok () (s.resized n) := by
  by_cases hlimit : Variable.limit < n
  · exact Or.inl ⟨hlimit, by simp [resize, hlimit]⟩
  · have hn := Nat.not_lt.1 hlimit
    have hmemory := Memory.lt_limit hn
    have hslots : Assignment.slotsFor n = .ok (2 * n) := by
      rw [Assignment.slotsFor, Memory.allow_eq hmemory]
      rfl
    -- There is room for the slots, so the second half follows the first in each case.
    have ha := Assignment.resize_eq hs.assignment.1 hslots
    refine Or.inr ⟨hn, ?_⟩
    rcases Nat.lt_trichotomy s.vars n with hvars | hvars | hvars
    · have hp := Phases.grow_resized hs.phases hvars (by omega)
      simp [resize, hlimit, hvars, onStore, Store.onPhases, Store.onAssignment, ha, hp, resized]
    · have hp := Phases.resized_self (hvars ▸ hs.phases)
      simp [resize, hlimit, hvars, onStore, Store.onAssignment, ha, hp, resized]
    · have hp := Phases.shrink_resized hs.phases hvars
      simp [resize, hlimit, hvars, Nat.lt_asymm hvars, onStore, Store.onPhases, Store.onAssignment,
        ha, hp, resized]

theorem Aligned.resized (hs : s.Aligned) (n : Nat) : (s.resized n).Aligned := by
  have hvars : (s.resized n).vars = n := Assignment.vars_resized
  unfold Aligned
  rw [hvars]
  exact ⟨⟨hs.assignment.1.resized n, hvars⟩, Phases.sized_resized n _⟩

theorem keeps_onStore {c : Change Store α} (hc : Keeps (Store.Aligned n) c) :
    Keeps (fun s : Solver => s.store.Aligned n) (onStore c) :=
  hc.on (fun _ h => h) fun _ _ _ h => h

theorem durable_aligned (n : Nat) : Durable fun s => s.store.Aligned n where
  count _ := keeps_modify fun _ h => h
  assign l := keeps_onStore (Store.keeps_onAssignment (Assignment.keeps_spans_assign l))
  saveBest := keeps_onStore Store.keeps_saveBest
  saveTarget := keeps_onStore Store.keeps_saveTarget
  backtrack v := keeps_onStore (Store.keeps_backtrack v)
  lock _ h := h
  file _ _ h := h
  apply h := keeps_onStore (Store.keeps_onPhases (Phases.keeps_sized_apply h))

/-- The task does not resize one half of the store alone. -/
def Task.keepsHalves : Task → Bool
  | .call c => c.keepsHalves
  | _ => true

/-- **A task that does not resize one half alone leaves the solver aligned.** -/
theorem aligned_perform (hs : s.Aligned) {t : Task} (ht : t.keepsHalves = true) (read : Reader) :
    ((perform read t).carry s).state.Aligned := by
  by_cases hresize : ∃ n, t = .resize n
  · obtain ⟨n, rfl⟩ := hresize
    rcases resize_cases hs n with ⟨-, h⟩ | ⟨-, h⟩
    · simpa [carry, perform, h] using hs
    · simpa [carry, perform, h] using hs.resized n
  · -- All other tasks leave the number of variables as it is.
    have h := (durable_aligned s.vars).keeps_perform read (fun n hn => absurd ⟨n, hn⟩ hresize)
      (fun c hc => keeps_onStore (Store.keeps_call (by rwa [hc] at ht))) s hs
    have hvars : ((perform read t).carry s).state.vars = s.vars := h.assignment.2
    unfold Aligned
    rw [hvars]
    exact h

theorem aligned_ofOptions (options : Options) : (ofOptions options).Aligned := by
  have hvars : (ofOptions options).vars = 0 := by simp [ofOptions, vars, Assignment.vars]
  unfold Aligned
  rw [hvars]
  exact ⟨⟨.blank 0, hvars⟩, rfl, rfl, rfl⟩

end Solver

end Polarity
