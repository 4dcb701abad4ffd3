import Polarity.Proofs.Search.Rounds

/-!
# Preparing a solver

What a solver looks like after it has been given its size and a hint. A fresh solver is resized to
one without values and phases (`resize_ofOptions`), as long as the variables can be numbered, and a
hint of the right size is written over best and target phases (`initPhases_eq`).
-/

namespace Polarity

variable {n : Nat}

/-- What can be numbered can be stored. -/
theorem Memory.lt_limit (hn : n ≤ Variable.limit) : 2 * n < limit := by
  unfold Variable.limit at hn
  unfold limit
  omega

/-! ## Growing -/

namespace PhaseArray

variable {b : PhaseArray} {phases : List Phase}

theorem reserve_eq (hn : n < Memory.limit) : reserve n b = .ok () b := by
  have hroom : ¬ (b.size < n ∧ Memory.limit ≤ n) := fun h => Nat.not_le.2 hn h.2
  simp [reserve, hroom]

theorem grow_eq (h : b.size < n) (hn : n < Memory.limit) :
    grow n b = .ok () ⟨b.entries ++ Array.replicate (n - b.size) .unset⟩ := by
  simp [grow, Change.ensure_run h, reserve_eq hn]

/-- What is written over unset entries replaces them. -/
theorem overlaid_unset (phases : List Phase) :
    overlaid ⟨Array.replicate phases.length .unset⟩ phases = ⟨phases.toArray⟩ := by
  refine congrArg PhaseArray.mk (Array.ext (by simp) fun i _ hi => ?_)
  have hi' : i < phases.length := by simpa using hi
  simp only [Array.getElem_zipWith, Array.getElem_replicate, List.getElem_toArray]
  generalize phases[i] = p
  cases p <;> rfl

end PhaseArray

namespace Phases

theorem grow_eq {p : Phases} (hp : p.Sized p.size) (h : p.size < n) (hn : n < Memory.limit) :
    grow n p = .ok ()
      { best := ⟨p.best.entries ++ Array.replicate (n - p.size) .unset⟩
        saved := ⟨p.saved.entries ++ Array.replicate (n - p.size) .unset⟩
        target := ⟨p.target.entries ++ Array.replicate (n - p.size) .unset⟩ } := by
  have hb := PhaseArray.grow_eq (b := p.best) (hp.best ▸ h) hn
  have hs := PhaseArray.grow_eq (b := p.saved) (hp.saved ▸ h) hn
  have ht := PhaseArray.grow_eq (b := p.target) (hp.target ▸ h) hn
  rw [hp.best] at hb
  rw [hp.saved] at hs
  rw [hp.target] at ht
  simp [grow, Change.ensure_run h, onBest, onSaved, onTarget, PhaseArray.reserve_eq hn, hb, hs, ht]

theorem apply_eq {h : Hint} {p : Phases} (hsize : h.size = p.size) :
    apply h p = .ok ()
      { p with best := p.best.overlaid h.phases, target := p.target.overlaid h.phases } := by
  simp [apply, Change.ensure_run hsize, onBest, onTarget, PhaseArray.overlay_eq]

end Phases

theorem Assignment.resize_empty (hn : n ≤ Variable.limit) :
    resize n empty = .ok () (blank n) := by
  have hallow := Memory.allow_eq (Memory.lt_limit hn)
  simp [resize, slotsFor, hallow, Except.mapError, Change.ensure_run, empty, varValues, vars, blank]

/-! ## Solvers -/

namespace Solver

/-- A solver with an empty store takes any size whose variables can be numbered. -/
theorem resize_of_empty {s : Solver} (hstore : s.store = {}) (hn : n ≤ Variable.limit) :
    resize n s = .ok () { s with store := (blank s.options n).store } := by
  have hlimit : n < Memory.limit := by
    have := Memory.lt_limit hn
    omega
  have hassign : Assignment.resize n {} = .ok () (.blank n) := Assignment.resize_empty hn
  have hvars : s.vars = 0 := by simp [vars, hstore, Assignment.vars]
  by_cases hpos : 0 < n
  · have hgrow := Phases.grow_eq (p := {}) ⟨rfl, rfl, rfl⟩ hpos hlimit
    simp [resize, Nat.not_lt.2 hn, hvars, hpos, onStore, Store.onPhases, Store.onAssignment, hstore,
      hgrow, hassign]
    rfl
  · obtain rfl : n = 0 := by omega
    simp [resize, hvars, onStore, Store.onAssignment, hstore, hassign]
    rfl

/-- **A fresh solver takes any size whose variables can be numbered.** -/
theorem resize_ofOptions (options : Options) (hn : n ≤ Variable.limit) :
    resize n (ofOptions options) = .ok () (blank options n) :=
  resize_of_empty rfl hn

theorem initPhases_eq {h : Hint} {s : Solver} (hlocked : s.locked = false)
    (hsize : h.size = s.vars) (hp : s.store.phases.size = s.vars) :
    initPhases h s = .ok ()
      { s with
        store.phases.best := s.store.phases.best.overlaid h.phases
        store.phases.target := s.store.phases.target.overlaid h.phases
        locked := true } := by
  have happly := Phases.apply_eq (hsize.trans hp.symm)
  simp [initPhases, hlocked, hsize, onStore, Store.onPhases, happly, startSearch]

/-- A solver of the size of a hint that was given this hint, and nothing else. -/
def hinted (options : Options) (h : Hint) : Solver :=
  { blank options h.size with
    store.phases.best := ⟨h.phases.toArray⟩
    store.phases.target := ⟨h.phases.toArray⟩
    locked := true }

theorem sizedTo_hinted {f : Formula} (options : Options) {h : Hint} (hsize : h.size = f.vars) :
    (hinted options h).SizedTo f where
  consistent := .blank h.size
  vars := (Assignment.vars_blank h.size).trans hsize
  phases := ⟨hsize, Array.size_replicate.trans hsize, hsize⟩

theorem initPhases_blank (options : Options) (h : Hint) :
    initPhases h (blank options h.size) = .ok () (hinted options h) := by
  have hvars : (blank options h.size).vars = h.size := Assignment.vars_blank h.size
  have hsize : (blank options h.size).store.phases.best.size = h.size := Array.size_replicate
  have hfull : PhaseArray.overlaid ⟨Array.replicate h.size .unset⟩ h.phases = ⟨h.phases.toArray⟩ :=
    PhaseArray.overlaid_unset h.phases
  rw [initPhases_eq rfl hvars.symm (hsize.trans hvars.symm)]
  simp only [hinted, blank, hfull]

end Solver

end Polarity
