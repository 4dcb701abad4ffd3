import Polarity.Proofs.Search.Lockstep
import Polarity.Proofs.Search.Guided

/-!
# Which phases a search looks at

A search writes best phases and never reads them, and it reads target phases only if they are in
use. So whatever stands there at its start, it answers the same and leaves the same behind, best and
target phases apart (`search_withHinted`). In particular a hint, which is written to best and target
phases alone, has no effect on a search without target phases.

**Theorem (`search_ignores_unread`).** Other best phases make no difference to a search, nor do
other target phases or a hint to one that does not use target phases.
-/

namespace Polarity.Solver

variable {f : Formula} {s t : Solver} {best target : PhaseArray} {h : Hint} {seen : Bool}

/-- The solver with other best and target phases. -/
def withHinted (best target : PhaseArray) (s : Solver) : Solver :=
  { s with store.phases.best := best, store.phases.target := target }

theorem paired_withHinted (hs : s.SizedTo f) (hbest : best.size = f.vars)
    (htarget : target.size = f.vars) (hseen : seen = true → target = s.store.phases.target)
    (huse : s.options.target = true → seen = true) :
    s.Paired ⟨false, false, seen⟩ (s.withHinted best target) where
  store := ⟨hs.consistent, rfl, ⟨hbest.trans hs.phases.best.symm, nofun⟩, rfl,
    ⟨htarget.trans hs.phases.target.symm, hseen⟩⟩
  engine := rfl
  useTarget := rfl
  seen := huse
  initial := rfl
  set := nofun

theorem Paired.eq_withHinted (h : s.Paired ⟨false, false, seen⟩ t)
    (hoptions : t.options = s.options) (hfile : t.initPhaseFile = s.initPhaseFile)
    (hlocked : t.locked = s.locked) :
    t = s.withHinted t.store.phases.best t.store.phases.target := by
  obtain ⟨hstore, hengine, -, -, -, -⟩ := h
  obtain ⟨-, hassignment, -, hsaved, -⟩ := hstore
  obtain ⟨options, ⟨a, ⟨b, p, q⟩⟩, engine, file, locked⟩ := t
  subst hoptions hfile hlocked hengine
  unfold withHinted
  simp only [mirror_false] at hassignment hsaved
  rw [hassignment, hsaved]

/-- A search closes the window itself. -/
theorem search_locked (hvars : s.vars = f.vars) :
    search f { s with locked := true } = search f s := by
  rw [search_run hvars]
  exact search_run (s := { s with locked := true }) hvars

/-- **What stands in best phases, or in target phases that are not in use, makes no difference.** -/
theorem search_withHinted (seen : Bool) (hf : f.WellFormed) (hs : s.SizedTo f)
    (hbest : best.size = f.vars) (htarget : target.size = f.vars)
    (hseen : seen = true → target = s.store.phases.target)
    (huse : s.options.target = true → seen = true) :
    ∃ o t best' target', search f s = .ok o t ∧
      search f (s.withHinted best target) = .ok o (t.withHinted best' target') ∧
      (seen = true → target' = t.store.phases.target) := by
  have hpaired := paired_withHinted hs hbest htarget hseen huse
  obtain ⟨o, t, t', ht, ht', h⟩ := search_of_paired hf hs hpaired
  simp only [mirror_false] at ht'
  -- What the pairing does not speak of, neither search changes or both set.
  obtain ⟨hoptions, hfile, hlocked⟩ := search_rest ht
  obtain ⟨hoptions', hfile', hlocked'⟩ := search_rest ht'
  have heq := h.eq_withHinted (hoptions'.trans hoptions.symm) (hfile'.trans hfile.symm)
    (hlocked'.trans hlocked.symm)
  exact ⟨o, t, _, _, ht, heq ▸ ht', h.store.phases.target.entries⟩

/-- A hint of the right length is written to best and target phases. -/
theorem apply_withHinted (hs : s.SizedTo f) (hh : h.size = f.vars) :
    ∃ best target : PhaseArray, best.size = f.vars ∧ target.size = f.vars ∧
      onStore (Store.onPhases (Phases.apply h)) s = .ok () (s.withHinted best target) ∧
      (s.locked = false →
        initPhases h s = .ok () { s.withHinted best target with locked := true }) := by
  have hsize : h.size = s.store.phases.size := hh.trans hs.phases.best.symm
  refine ⟨s.store.phases.best.overlaid h.phases, s.store.phases.target.overlaid h.phases,
    ?_, ?_, ?_, ?_⟩
  · rw [PhaseArray.size_overlaid hsize.symm, hs.phases.best]
  · rw [PhaseArray.size_overlaid (hs.phases.target.trans hh.symm), hs.phases.target]
  · simp [onStore, Store.onPhases, Phases.apply_eq hsize, withHinted]
  · intro hlocked
    have hvars : s.vars = h.size := hs.vars.trans hh.symm
    exact initPhases_eq hlocked hvars.symm (hsize.symm.trans hvars.symm)

/-- **A search ignores what it does not read.** With other best phases it gives the same answer and
leaves everything else the same. Without target phases in use this holds for target phases too, and
so a hint that is applied beforehand changes nothing but best and target phases. -/
theorem search_ignores_unread (hf : f.WellFormed) (hs : s.SizedTo f) :
    (∀ best : PhaseArray, best.size = f.vars → ∃ o t best', search f s = .ok o t ∧
      search f { s with store.phases.best := best } =
        .ok o { t with store.phases.best := best' }) ∧
    (s.options.target = false →
      (∀ best target : PhaseArray, best.size = f.vars → target.size = f.vars →
        ∃ o t best' target', search f s = .ok o t ∧
          search f (s.withHinted best target) = .ok o (t.withHinted best' target')) ∧
      ∀ h : Hint, h.size = f.vars → ∃ o t best' target', search f s = .ok o t ∧
        (do onStore (Store.onPhases (Phases.apply h)); search f : Change Solver Outcome) s =
          .ok o (t.withHinted best' target') ∧
        (s.locked = false → (do initPhases h; search f : Change Solver Outcome) s =
          .ok o (t.withHinted best' target'))) := by
  constructor
  · intro best hbest
    obtain ⟨o, t, best', target', ht, ht', hkept⟩ :=
      search_withHinted true hf hs hbest hs.phases.target (fun _ => rfl) fun _ => rfl
    obtain rfl := hkept rfl
    exact ⟨o, t, best', ht, ht'⟩
  · intro huse
    have hany {best target : PhaseArray} (hbest : best.size = f.vars)
        (htarget : target.size = f.vars) := search_withHinted false hf hs hbest
      htarget nofun fun h => absurd (huse.symm.trans h) nofun
    constructor
    · intro best target hbest htarget
      obtain ⟨o, t, best', target', ht, ht', -⟩ := hany hbest htarget
      exact ⟨o, t, best', target', ht, ht'⟩
    · intro h hh
      obtain ⟨best, target, hbest, htarget, happly, hinit⟩ := apply_withHinted hs hh
      obtain ⟨o, t, best', target', ht, ht', -⟩ := hany hbest htarget
      refine ⟨o, t, best', target', ht, ?_, fun hlocked => ?_⟩
      · simpa [Change.bind_run, happly] using ht'
      · have hsearch := search_locked (s := s.withHinted best target) hs.vars
        simpa [Change.bind_run, hinit hlocked, hsearch] using ht'

theorem search_ignores_unread_refusal :
    (∃ o t best, search .refusal (blank {} 2) = .ok o t ∧
      search .refusal { blank {} 2 with store.phases.best := ⟨#[.negative, .unset]⟩ } =
        .ok o { t with store.phases.best := best }) ∧
    ∃ o t best target, search .refusal (blank { target := false } 2) = .ok o t ∧
      (do initPhases .compliance; search .refusal : Change Solver Outcome)
        (blank { target := false } 2) = .ok o (t.withHinted best target) := by
  constructor
  · have h := search_ignores_unread Formula.wellFormed_refusal (sizedTo_blank {} .refusal)
    exact h.1 ⟨#[.negative, .unset]⟩ rfl
  · have hs := sizedTo_blank { target := false } .refusal
    obtain ⟨-, h⟩ := search_ignores_unread Formula.wellFormed_refusal hs
    obtain ⟨o, t, best, target, ht, -, hinit⟩ := (h rfl).2 .compliance rfl
    exact ⟨o, t, best, target, ht, hinit rfl⟩

end Polarity.Solver
