import Polarity.Proofs.Assignment.Values
import Polarity.Store

/-!
# What saving writes

The states that the saving operations of phases and stores leave, when the sizes agree. `overlaid`
is an array with the set phases of a list written over it, `noting` the phases with the sign of a
literal saved for its variable. None of them changes a size (`Sized`).
-/

namespace Polarity

variable {a : Assignment} {l : Literal} {v : Variable} {p : Phases} {n : Nat}

/-! ## Arrays -/

namespace PhaseArray

/-- The array with the set phases of a list written over it. -/
def overlaid (b : PhaseArray) (phases : List Phase) : PhaseArray :=
  ⟨Array.zipWith Phase.overlay b.entries phases.toArray⟩

/-- The array with the phase of a variable written. -/
def written (b : PhaseArray) (v : Variable) (q : Phase) : PhaseArray :=
  ⟨b.entries.setIfInBounds v.index q⟩

theorem overlay_eq (b : PhaseArray) (phases : List Phase) :
    overlay phases b = .ok () (b.overlaid phases) := rfl

theorem set_eq {b : PhaseArray} (hv : v.index < b.size) (q : Phase) :
    set v q b = .ok () (b.written v q) := by
  simp [set, Change.ensure_run hv, written]

theorem get_eq {b : PhaseArray} (hv : v.index < b.size) : ∃ q, b.get v = .ok q := by
  unfold get
  rw [Array.getElem?_eq_getElem hv]
  exact ⟨_, rfl⟩

theorem get_of_le {b : PhaseArray} (hv : b.size ≤ v.index) :
    b.get v = .error (.fault .outOfRange) := by
  unfold get
  rw [Array.getElem?_eq_none hv]

theorem size_overlaid {b : PhaseArray} {phases : List Phase} (h : b.size = phases.length) :
    (b.overlaid phases).size = b.size := by
  unfold size at h ⊢
  simp [overlaid, ← h]

theorem get_overlaid_of_isSet {b : PhaseArray} {phases : List Phase} {p : Phase}
    (hsize : b.size = phases.length) (hv : phases[v.index]? = some p) (hp : p.isSet = true) :
    (b.overlaid phases).get v = .ok p := by
  obtain ⟨hlt, rfl⟩ := List.getElem?_eq_some_iff.1 hv
  have hlt' : v.index < b.entries.size := hlt.trans_eq hsize.symm
  rw [get, overlaid, Array.getElem?_zipWith]
  simp [hlt, hlt', Phase.overlay, hp]

theorem get_overlaid_of_unset {b : PhaseArray} {phases : List Phase}
    (hsize : b.size = phases.length)
    (hv : ∀ p, phases[v.index]? = some p → p.isSet = false) :
    (b.overlaid phases).get v = b.get v := by
  rw [get, get, overlaid, Array.getElem?_zipWith]
  by_cases hlt : v.index < phases.length
  · have hlt' : v.index < b.entries.size := hlt.trans_eq hsize.symm
    have hp := hv _ (List.getElem?_eq_getElem hlt)
    simp [hlt, hlt', Phase.overlay, hp]
  · have hge : ¬ v.index < b.entries.size := fun h => hlt (h.trans_eq hsize)
    simp [hlt, hge]

@[simp] theorem size_written {b : PhaseArray} {q : Phase} : (b.written v q).size = b.size := by
  simp [size, written]

end PhaseArray

/-! ## Phases -/

namespace Phases

/-- The three arrays have one size. -/
structure Sized (n : Nat) (p : Phases) : Prop where
  best : p.best.size = n
  saved : p.saved.size = n
  target : p.target.size = n

/-- The phases with the sign of a literal saved for its variable. -/
def noting (p : Phases) (l : Literal) : Phases :=
  { p with saved := p.saved.written l.var (Phase.ofBool l.positive) }

theorem Sized.noting (h : p.Sized n) (l : Literal) : (p.noting l).Sized n :=
  ⟨h.best, PhaseArray.size_written.trans h.saved, h.target⟩

theorem saveBest_eq (h : p.best.size = a.vars) :
    saveBest a p = .ok () { p with best := p.best.overlaid a.varValues } := by
  simp [saveBest, onBest, Change.ensure_run h, PhaseArray.overlay_eq]

theorem saveTarget_eq (h : p.target.size = a.vars) :
    saveTarget a p = .ok () { p with target := p.target.overlaid a.varValues } := by
  simp [saveTarget, onTarget, Change.ensure_run h, PhaseArray.overlay_eq]

theorem save_eq (h : l.var.index < p.saved.size) :
    save l.var (Phase.ofBool l.positive) p = .ok () (p.noting l) := by
  simp [save, onSaved, PhaseArray.set_eq h, noting]

/-- There is a sign to try for every variable. -/
theorem exists_decisionPhase (h : p.Sized n) (hv : v.index < n) (useTarget : Bool)
    (initial : Phase) : ∃ q, p.decisionPhase v useTarget initial = .ok q := by
  obtain ⟨t, ht⟩ := PhaseArray.get_eq (b := p.target) (h.target ▸ hv)
  obtain ⟨s, hs⟩ := PhaseArray.get_eq (b := p.saved) (h.saved ▸ hv)
  unfold decisionPhase
  cases useTarget <;> cases t <;> simp [ht, hs, bind, Except.bind, pure, Except.pure, Phase.isSet]

theorem decisionPhase_of_le (h : p.Sized n) (hv : n ≤ v.index) (useTarget : Bool)
    (initial : Phase) : p.decisionPhase v useTarget initial = .error (.fault .outOfRange) := by
  have htarget := PhaseArray.get_of_le (b := p.target) (h.target ▸ hv)
  have hsaved := PhaseArray.get_of_le (b := p.saved) (h.saved ▸ hv)
  cases useTarget <;> simp [decisionPhase, htarget, hsaved, bind, Except.bind, pure, Except.pure]

theorem decisionPhase_eq_error_iff (h : p.Sized n) {useTarget : Bool} {initial : Phase}
    {e : Failure} : p.decisionPhase v useTarget initial = .error e ↔
      n ≤ v.index ∧ e = .fault .outOfRange := by
  constructor
  · intro herror
    rcases Nat.lt_or_ge v.index n with hv | hv
    · obtain ⟨q, hq⟩ := exists_decisionPhase h hv useTarget initial
      simp [hq] at herror
    · exact ⟨hv, by simpa [decisionPhase_of_le h hv, eq_comm] using herror⟩
  · rintro ⟨hv, rfl⟩
    exact decisionPhase_of_le h hv useTarget initial

end Phases

/-! ## Stores -/

namespace Store

theorem saveBest_eq {s : Store} (h : s.phases.best.size = s.assignment.vars) :
    saveBest s = .ok () { s with
      phases.best := s.phases.best.overlaid s.assignment.varValues } := by
  simp [saveBest, onPhases, Phases.saveBest_eq h]

theorem saveTarget_eq {s : Store} (h : s.phases.target.size = s.assignment.vars) :
    saveTarget s = .ok () { s with
      phases.target := s.phases.target.overlaid s.assignment.varValues } := by
  simp [saveTarget, onPhases, Phases.saveTarget_eq h]

/-- Going back over a literal that was just made true saves its sign. -/
theorem backtrack_eq (ha : a.Consistent) (hl : a.value l = .ok .unset)
    (h : l.var.index < p.saved.size) :
    backtrack l.var ⟨a.put l, p⟩ = .ok (Phase.ofBool l.positive) ⟨a, p.noting l⟩ := by
  simp [backtrack, onAssignment, onPhases, Assignment.unassign_put ha hl, Phases.save_eq h]

end Store

end Polarity
