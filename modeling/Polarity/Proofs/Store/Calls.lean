import Polarity.Proofs.Assignment.Histories
import Polarity.Proofs.Solver.Aligned

/-!
# What a call on a store can do

A store is *sound* when its assignment is consistent and its three arrays of phases have one size,
which need not be the size of the assignment: each half can be resized alone.

**Inversion (`callResult`).** A call on a sound store is refused for one of the reasons in `Refused` and
changes nothing, or it succeeds and leaves the store that `CallResult` gives for it, under the
conditions given there. There is one exception: going back over a variable that has a value and no stored phases frees it before it
fails. All stores that come of a call on a sound one are sound again (`CallResult.sound`).
-/

namespace Polarity

open Change

variable {n : Nat} {v : Variable}

/-! ## Operations on phases -/

/-- The second array is the first one with so many entries. -/
structure PhaseArray.ResizedTo (n : Nat) (b c : PhaseArray) : Prop where
  size : c.size = n
  kept : ∀ v : Variable, v.index < min b.size n → c.get v = b.get v
  fresh : ∀ v : Variable, b.size ≤ v.index → v.index < n → c.get v = .ok .unset

theorem PhaseArray.resizedTo_resized (n : Nat) (b : PhaseArray) : ResizedTo n b (b.resized n) where
  size := size_resized
  kept v hv := by
    have hb : v.index < b.entries.size := by
      have : v.index < b.size := by omega
      exact this
    have hn : v.index < min n b.entries.size := by omega
    simp [get, resized, Array.getElem?_append, hn, hb]
  fresh v hge hlt := by
    have hb : b.entries.size ≤ v.index := hge
    rw [get, resized, Array.getElem?_append_right (by simp; omega), Array.getElem?_replicate,
      if_pos (by simp [PhaseArray.size]; omega)]

namespace Phases

variable {p : Phases}

theorem sized_size {q : Phases} (h : q.Sized n) : q.Sized q.size := by
  have hsize : q.size = n := h.best
  rwa [hsize]

theorem grow_of_le (h : n ≤ p.size) : grow n p = .error (.fault .phasesNotGrowing) p := by
  simp [grow, Change.ensure, Nat.not_lt.2 h]

/-- The first reservation fails, before any array has grown. -/
theorem grow_of_limit_le (h : p.size < n) (hn : Memory.limit ≤ n) :
    grow n p = .error (.error (.allocation n)) p := by
  have hbest : p.best.size < n := h
  simp [grow, Change.ensure_run h, onBest, PhaseArray.reserve, hbest, hn]

theorem grow_cases (hp : p.Sized p.size) (n : Nat) :
    (p.size < n ∧ grow n p = .ok () (p.resized n)) ∨
      (n ≤ p.size ∧ grow n p = .error (.fault .phasesNotGrowing) p) ∨
      (p.size < n ∧ Memory.limit ≤ n ∧ grow n p = .error (.error (.allocation n)) p) := by
  rcases Nat.lt_or_ge p.size n with hsize | hsize
  · rcases Nat.lt_or_ge n Memory.limit with hroom | hroom
    · exact Or.inl ⟨hsize, grow_resized hp hsize hroom⟩
    · exact Or.inr (Or.inr ⟨hsize, hroom, grow_of_limit_le hsize hroom⟩)
  · exact Or.inr (Or.inl ⟨hsize, grow_of_le hsize⟩)

theorem shrink_cases (hp : p.Sized p.size) (n : Nat) :
    (n < p.size ∧ shrink n p = .ok () (p.resized n)) ∨
      (p.size ≤ n ∧ shrink n p = .error (.fault .phasesNotShrinking) p) := by
  rcases Nat.lt_or_ge n p.size with hsize | hsize
  · exact Or.inl ⟨hsize, shrink_resized hp hsize⟩
  · exact Or.inr ⟨hsize, by simp [shrink, Change.ensure, Nat.not_lt.2 hsize]⟩

theorem saveBest_cases (a : Assignment) (p : Phases) :
    (p.best.size = a.vars ∧
      saveBest a p = .ok () { p with best := p.best.overlaid a.varValues }) ∨
      (p.best.size ≠ a.vars ∧ saveBest a p = .error (.fault .sizesDiffer) p) := by
  by_cases hsize : p.best.size = a.vars
  · exact Or.inl ⟨hsize, saveBest_eq hsize⟩
  · exact Or.inr ⟨hsize, by simp [saveBest, Change.ensure, hsize]⟩

theorem saveTarget_cases (a : Assignment) (p : Phases) :
    (p.target.size = a.vars ∧
      saveTarget a p = .ok () { p with target := p.target.overlaid a.varValues }) ∨
      (p.target.size ≠ a.vars ∧ saveTarget a p = .error (.fault .sizesDiffer) p) := by
  by_cases hsize : p.target.size = a.vars
  · exact Or.inl ⟨hsize, saveTarget_eq hsize⟩
  · exact Or.inr ⟨hsize, by simp [saveTarget, Change.ensure, hsize]⟩

theorem apply_cases (h : Hint) (p : Phases) :
    (h.size = p.size ∧ apply h p = .ok ()
      { p with best := p.best.overlaid h.phases, target := p.target.overlaid h.phases }) ∨
      (h.size ≠ p.size ∧ apply h p = .error (.fault .hintSizeDiffers) p) := by
  by_cases hsize : h.size = p.size
  · exact Or.inl ⟨hsize, apply_eq hsize⟩
  · exact Or.inr ⟨hsize, by simp [apply, Change.ensure, hsize]⟩

/-- The phases with the value that a variable had saved for it, if it had one. -/
def saving (v : Variable) (value : Phase) (p : Phases) : Phases :=
  if value.isSet then { p with saved := p.saved.written v value } else p

theorem save_cases (v : Variable) (value : Phase) (p : Phases) :
    ((value.isSet = true → v.index < p.saved.size) ∧
      save v value p = .ok () (p.saving v value)) ∨
      (value.isSet = true ∧ p.saved.size ≤ v.index ∧
        save v value p = .error (.fault .outOfRange) p) := by
  cases hset : value.isSet with
  | false => exact Or.inl ⟨nofun, by simp [save, saving, hset]⟩
  | true =>
    by_cases hv : v.index < p.saved.size
    · exact Or.inl ⟨fun _ => hv, by simp [save, saving, hset, onSaved, PhaseArray.set_eq hv]⟩
    · refine Or.inr ⟨rfl, Nat.not_lt.1 hv, ?_⟩
      simp [save, hset, onSaved, PhaseArray.set, Change.ensure, hv]

theorem Sized.saving (hp : p.Sized n) (v : Variable) (value : Phase) :
    (p.saving v value).Sized n := by
  unfold Phases.saving
  split
  · exact ⟨hp.best, PhaseArray.size_written.trans hp.saved, hp.target⟩
  · exact hp

end Phases

/-! ## Sound stores -/

namespace Store

variable {s : Store} {c : Call}

/-- The assignment is consistent and the three arrays of phases have one size. -/
structure Sound (s : Store) : Prop where
  assignment : s.assignment.Consistent
  phases : s.phases.Sized s.phases.size

theorem Aligned.sound (hs : s.Aligned n) : s.Sound :=
  ⟨hs.assignment.1, Phases.sized_size hs.phases⟩

/-- The variable whose value a call looks up, if it does so. -/
def Call.lookedUp : Call → Option Variable
  | .backtrack v => some v
  | .unassign v => some v
  | .varValue v => some v
  | .assign l => some l.var
  | .value l => some l.var
  | _ => none

/-- The reasons for which a call is refused. -/
inductive Refused (s : Store) : Call → Failure → Prop
  | notGrowing {n : Nat} (hn : n ≤ s.phases.size) :
      Refused s (.grow n) (.fault .phasesNotGrowing)
  | noMemory {n : Nat} (hn : s.phases.size < n) (hmemory : Memory.limit ≤ n) :
      Refused s (.grow n) (.error (.allocation n))
  | notShrinking {n : Nat} (hn : s.phases.size ≤ n) :
      Refused s (.shrink n) (.fault .phasesNotShrinking)
  | noSlots {n : Nat} {f : Fault} (hslots : Memory.allow (2 * n) = .error f) :
      Refused s (.resizeAssignment n) (.fault f)
  | bestDiffers (hsize : s.phases.best.size ≠ s.assignment.vars) :
      Refused s .saveBest (.fault .sizesDiffer)
  | targetDiffers (hsize : s.phases.target.size ≠ s.assignment.vars) :
      Refused s .saveTarget (.fault .sizesDiffer)
  | noSaved {v : Variable} {p : Phase} (hset : p.isSet = true) (hv : s.phases.saved.size ≤ v.index) :
      Refused s (.save v p) (.fault .outOfRange)
  | noHint {text : String} {e : Failure} (hhint : hintOf text = .error e) :
      Refused s (.apply text) e
  | hintDiffers {text : String} {h : Hint} (hhint : hintOf text = .ok h)
      (hsize : h.size ≠ s.phases.size) : Refused s (.apply text) (.fault .hintSizeDiffers)
  | noDecision {v : Variable} {useTarget : Bool} {initial : Phase} (hv : s.phases.size ≤ v.index) :
      Refused s (.decision v useTarget initial) (.fault .outOfRange)
  | noVariable {c : Call} {v : Variable} (hc : c.lookedUp = some v)
      (hv : s.assignment.vars ≤ v.index) : Refused s c (.fault .outOfRange)
  | taken {l : Literal} {p : Phase} (hvalue : s.assignment.value l = .ok p)
      (hset : p.isSet = true) : Refused s (.assign l) (.fault (.alreadyAssigned l))

/-- All that comes of a call: what it answers and the store it leaves. -/
inductive CallResult (s : Store) : Call → Ended Store Reply → Prop
  | refused {c : Call} {e : Failure} (reason : Refused s c e) : CallResult s c ⟨.error e, s⟩
  | uncovered {v : Variable} {p : Phase} (past : s.assignment.varValue v = .ok p)
      (set : p.isSet = true) (hv : s.phases.size ≤ v.index) :
      CallResult s (.backtrack v)
        ⟨.error (.fault .outOfRange), { s with assignment := s.assignment.freed v p }⟩
  | grown {n : Nat} (hn : s.phases.size < n) :
      CallResult s (.grow n) ⟨.ok .done, { s with phases := s.phases.resized n }⟩
  | shrunk {n : Nat} (hn : n < s.phases.size) :
      CallResult s (.shrink n) ⟨.ok .done, { s with phases := s.phases.resized n }⟩
  | resized {n : Nat} : CallResult s (.resizeAssignment n)
      ⟨.ok .done, { s with assignment := s.assignment.resized n }⟩
  | savedBest (hsize : s.phases.best.size = s.assignment.vars) : CallResult s .saveBest
      ⟨.ok .done, { s with phases.best := s.phases.best.overlaid s.assignment.varValues }⟩
  | savedTarget (hsize : s.phases.target.size = s.assignment.vars) : CallResult s .saveTarget
      ⟨.ok .done, { s with phases.target := s.phases.target.overlaid s.assignment.varValues }⟩
  | saved {v : Variable} {p : Phase} (hv : p.isSet = true → v.index < s.phases.saved.size) :
      CallResult s (.save v p) ⟨.ok .done, { s with phases := s.phases.saving v p }⟩
  | applied {text : String} {h : Hint} (hhint : hintOf text = .ok h)
      (hsize : h.size = s.phases.size) : CallResult s (.apply text)
      ⟨.ok .done, { s with
        phases.best := s.phases.best.overlaid h.phases
        phases.target := s.phases.target.overlaid h.phases }⟩
  | backtracked {v : Variable} {p : Phase} (past : s.assignment.varValue v = .ok p)
      (hv : p.isSet = true → v.index < s.phases.saved.size) : CallResult s (.backtrack v)
      ⟨.ok (.phase p), ⟨s.assignment.freed v p, s.phases.saving v p⟩⟩
  | assigned {l : Literal} (free : s.assignment.value l = .ok .unset) :
      CallResult s (.assign l) ⟨.ok .done, { s with assignment := s.assignment.put l }⟩
  | unassigned {v : Variable} {p : Phase} (past : s.assignment.varValue v = .ok p) :
      CallResult s (.unassign v)
        ⟨.ok (.phase p), { s with assignment := s.assignment.freed v p }⟩
  | decision {v : Variable} {useTarget : Bool} {initial p : Phase}
      (answer : s.phases.decisionPhase v useTarget initial = .ok p) :
      CallResult s (.decision v useTarget initial) ⟨.ok (.phase p), s⟩
  | value {l : Literal} {p : Phase} (answer : s.assignment.value l = .ok p) :
      CallResult s (.value l) ⟨.ok (.phase p), s⟩
  | varValue {v : Variable} {p : Phase} (answer : s.assignment.varValue v = .ok p) :
      CallResult s (.varValue v) ⟨.ok (.phase p), s⟩
  | firstUnassigned :
      CallResult s .firstUnassigned ⟨.ok (.first s.assignment.firstUnassigned), s⟩

theorem backtrackResult (hs : s.Sound) (v : Variable) :
    CallResult s (.backtrack v) ((call (.backtrack v)).carry s) := by
  cases hpast : s.assignment.varValue v with
  | error e =>
    obtain ⟨hv, rfl⟩ := hs.assignment.value_eq_error_iff.1 hpast
    have hfail := Assignment.unassign_of_le hs.assignment hv
    simpa [carry, call, backtrack, onAssignment, hfail] using
      CallResult.refused (.noVariable rfl hv)
  | ok p =>
    -- The variable is free now; it is left to save the value that it had.
    have hfree := Assignment.unassign_eq hs.assignment hpast
    rcases Phases.save_cases v p s.phases with ⟨hv, hsave⟩ | ⟨hset, hv, hsave⟩
    · simpa [carry, call, backtrack, onAssignment, onPhases, hfree, hsave] using
        CallResult.backtracked hpast hv
    · have hsize : s.phases.size ≤ v.index := hs.phases.saved ▸ hv
      simpa [carry, call, backtrack, onAssignment, onPhases, hfree, hsave] using
        CallResult.uncovered hpast hset hsize

/-- **All that a call can do** on a sound store. -/
theorem callResult (hs : s.Sound) (c : Call) : CallResult s c ((call c).carry s) := by
  cases c with
  | grow n =>
    rcases Phases.grow_cases hs.phases n with ⟨hn, h⟩ | ⟨hn, h⟩ | ⟨hn, hmemory, h⟩
    · simpa [carry, call, onPhases, h] using CallResult.grown hn
    · simpa [carry, call, onPhases, h] using CallResult.refused (.notGrowing hn)
    · simpa [carry, call, onPhases, h] using CallResult.refused (.noMemory hn hmemory)
  | shrink n =>
    rcases Phases.shrink_cases hs.phases n with ⟨hn, h⟩ | ⟨hn, h⟩
    · simpa [carry, call, onPhases, h] using CallResult.shrunk hn
    · simpa [carry, call, onPhases, h] using CallResult.refused (.notShrinking hn)
  | resizeAssignment n =>
    rcases Assignment.resize_cases hs.assignment n with h | ⟨f, hslots, h⟩
    · simpa [carry, call, onAssignment, h] using CallResult.resized
    · simpa [carry, call, onAssignment, h] using CallResult.refused (.noSlots hslots)
  | saveBest =>
    rcases Phases.saveBest_cases s.assignment s.phases with ⟨hsize, h⟩ | ⟨hsize, h⟩
    · simpa [carry, call, saveBest, onPhases, h] using CallResult.savedBest hsize
    · simpa [carry, call, saveBest, onPhases, h] using CallResult.refused (.bestDiffers hsize)
  | saveTarget =>
    rcases Phases.saveTarget_cases s.assignment s.phases with ⟨hsize, h⟩ | ⟨hsize, h⟩
    · simpa [carry, call, saveTarget, onPhases, h] using CallResult.savedTarget hsize
    · simpa [carry, call, saveTarget, onPhases, h] using CallResult.refused (.targetDiffers hsize)
  | save v value =>
    rcases Phases.save_cases v value s.phases with ⟨hv, h⟩ | ⟨hset, hv, h⟩
    · simpa [carry, call, onPhases, h] using CallResult.saved hv
    · simpa [carry, call, onPhases, h] using CallResult.refused (.noSaved hset hv)
  | apply text =>
    cases hhint : hintOf text with
    | error e => simpa [carry, call, hhint] using CallResult.refused (.noHint hhint)
    | ok h =>
      rcases Phases.apply_cases h s.phases with ⟨hsize, happly⟩ | ⟨hsize, happly⟩
      · simpa [carry, call, onPhases, hhint, happly] using CallResult.applied hhint hsize
      · simpa [carry, call, onPhases, hhint, happly] using
          CallResult.refused (.hintDiffers hhint hsize)
  | decision v useTarget initial =>
    cases h : s.phases.decisionPhase v useTarget initial with
    | ok p => simpa [carry, call, h] using CallResult.decision h
    | error e =>
      obtain ⟨hv, rfl⟩ := (Phases.decisionPhase_eq_error_iff hs.phases).1 h
      simpa [carry, call, h] using CallResult.refused (.noDecision hv)
  | backtrack v => exact backtrackResult hs v
  | assign l =>
    cases h : s.assignment.value l with
    | error e =>
      obtain ⟨hv, rfl⟩ := hs.assignment.value_eq_error_iff.1 h
      have hfail := Assignment.assign_of_le hs.assignment hv
      simpa [carry, call, onAssignment, hfail] using CallResult.refused (.noVariable rfl hv)
    | ok p =>
      cases hset : p.isSet with
      | true =>
        have hfail := Assignment.assign_of_isSet h hset
        simpa [carry, call, onAssignment, hfail] using CallResult.refused (.taken h hset)
      | false =>
        obtain rfl := Phase.isSet_eq_false_iff.1 hset
        have hput := Assignment.assign_eq hs.assignment h
        simpa [carry, call, onAssignment, hput] using CallResult.assigned h
  | unassign v =>
    cases h : s.assignment.varValue v with
    | error e =>
      obtain ⟨hv, rfl⟩ := hs.assignment.value_eq_error_iff.1 h
      have hfail := Assignment.unassign_of_le hs.assignment hv
      simpa [carry, call, onAssignment, hfail] using CallResult.refused (.noVariable rfl hv)
    | ok p =>
      have hfree := Assignment.unassign_eq hs.assignment h
      simpa [carry, call, onAssignment, hfree] using CallResult.unassigned h
  | value l =>
    cases h : s.assignment.value l with
    | ok p => simpa [carry, call, h] using CallResult.value h
    | error e =>
      obtain ⟨hv, rfl⟩ := hs.assignment.value_eq_error_iff.1 h
      simpa [carry, call, h] using CallResult.refused (.noVariable rfl hv)
  | varValue v =>
    cases h : s.assignment.varValue v with
    | ok p => simpa [carry, call, h] using CallResult.varValue h
    | error e =>
      obtain ⟨hv, rfl⟩ := hs.assignment.value_eq_error_iff.1 h
      simpa [carry, call, h] using CallResult.refused (.noVariable rfl hv)
  | firstUnassigned => exact CallResult.firstUnassigned

/-- **A call leaves a sound store sound**, whether or not it succeeds. -/
theorem CallResult.sound {r : Ended Store Reply} (h : CallResult s c r) (hs : s.Sound) :
    r.state.Sound := by
  have ha := hs.assignment
  have hp := hs.phases
  have hoverlaid {b : PhaseArray} {l : List Phase} (hb : b.size = s.phases.size)
      (hl : l.length = s.phases.size) : (b.overlaid l).size = s.phases.size :=
    (PhaseArray.size_overlaid (hb.trans hl.symm)).trans hb
  cases h with
  | refused => exact hs
  | uncovered past => exact ⟨ha.freed past, hp⟩
  | grown => exact ⟨ha, Phases.sized_size (Phases.sized_resized _ _)⟩
  | shrunk => exact ⟨ha, Phases.sized_size (Phases.sized_resized _ _)⟩
  | resized => exact ⟨ha.resized _, hp⟩
  | savedBest hsize =>
    have hlength := Assignment.length_varValues.trans hsize.symm
    exact ⟨ha, Phases.sized_size ⟨hoverlaid rfl hlength, hp.saved, hp.target⟩⟩
  | savedTarget hsize =>
    have hlength := Assignment.length_varValues.trans (hsize.symm.trans hp.target)
    exact ⟨ha, Phases.sized_size ⟨hp.best, hp.saved, hoverlaid hp.target hlength⟩⟩
  | saved => exact ⟨ha, Phases.sized_size (hp.saving _ _)⟩
  | applied _ hsize =>
    exact ⟨ha, Phases.sized_size ⟨hoverlaid rfl hsize, hp.saved, hoverlaid hp.target hsize⟩⟩
  | backtracked past => exact ⟨ha.freed past, Phases.sized_size (hp.saving _ _)⟩
  | assigned free => exact ⟨ha.put free, hp⟩
  | unassigned past => exact ⟨ha.freed past, hp⟩
  | decision => exact hs
  | value => exact hs
  | varValue => exact hs
  | firstUnassigned => exact hs

theorem keeps_sound_call (c : Call) : Keeps Sound (call c) := fun _ hs => (callResult hs c).sound hs

theorem Sound.run (hs : s.Sound) (calls : List Call) : (run calls s).Sound := by
  induction calls generalizing s with
  | nil => exact hs
  | cons c later ih => exact ih (keeps_sound_call c s hs)

end Store

end Polarity
