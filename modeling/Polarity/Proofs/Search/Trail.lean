import Polarity.Proofs.Formula.Valuation
import Polarity.Proofs.Phases.Saving
import Polarity.Search.Trail

/-!
# Assignments along a trail

A search only makes literals true and takes them back in the opposite order. So its assignment is
always the one it started from with the literals of the trail made true, the earliest first
(`after`), and a trail is well-formed when each literal was free at the time it was added (`Fits`).

What the operations on the trail do is said in these terms: `push_eq`, `savePhases_eq`,
`backtrack_eq_flip` and `backtrack_eq_empty` give the state that each of them leaves.
-/

namespace Polarity

/-! ## The assignment that a trail leads to -/

/-- The assignment with the literals of a trail made true, the earliest first. -/
def Assignment.after (a : Assignment) : List Entry → Assignment
  | [] => a
  | e :: earlier => (a.after earlier).put e.lit

/-- The literal of each entry was free when the entry was added. -/
def Fits (a : Assignment) : List Entry → Prop
  | [] => True
  | e :: earlier => (a.after earlier).value e.lit = .ok .unset ∧ Fits a earlier

variable {a : Assignment} {e : Entry} {k l : Literal} {trail later earlier : List Entry}

@[simp] theorem Assignment.vars_after : (a.after trail).vars = a.vars := by
  induction trail with
  | nil => rfl
  | cons e earlier ih => rw [after, vars_put, ih]

theorem Assignment.assigned_after : (a.after trail).assigned = a.assigned + trail.length := by
  induction trail with
  | nil => rfl
  | cons e earlier ih => rw [after, assigned_put, ih, List.length_cons, Nat.add_assoc]

namespace Fits

theorem of_append (h : Fits a (later ++ earlier)) : Fits a earlier := by
  induction later with
  | nil => exact h
  | cons e later ih => exact ih h.2

theorem consistent (h : Fits a trail) (ha : a.Consistent) : (a.after trail).Consistent := by
  induction trail with
  | nil => exact ha
  | cons e earlier ih => exact (ih h.2).put h.1

/-- **The true literals are those of the start and those of the trail.** -/
theorem value_eq_positive_iff (h : Fits a trail) (ha : a.Consistent) :
    (a.after trail).value l = .ok .positive ↔
      a.value l = .ok .positive ∨ ∃ e ∈ trail, e.lit = l := by
  induction trail with
  | nil => simp [Assignment.after]
  | cons e earlier ih =>
    rw [Assignment.after, Assignment.value_put_eq_positive_iff (h.2.consistent ha) h.1, ih h.2]
    simp only [List.mem_cons, exists_eq_or_imp, eq_comm (a := l)]
    exact or_left_comm

theorem value_of_mem (h : Fits a trail) (ha : a.Consistent) (he : e ∈ trail) :
    (a.after trail).value e.lit = .ok .positive :=
  (h.value_eq_positive_iff ha).2 (Or.inr ⟨e, he, rfl⟩)

/-- **The values are those of the start with those of the trail written over them.** -/
theorem value_eq (h : Fits a trail) (ha : a.Consistent) :
    (a.after trail).value l =
      if l ∈ trail.map (·.lit) then .ok .positive
      else if -l ∈ trail.map (·.lit) then .ok .negative
      else a.value l := by
  induction trail with
  | nil => rfl
  | cons e earlier ih =>
    rw [Assignment.after, Assignment.value_put (h.2.consistent ha) h.1, ih h.2]
    by_cases hl : l = e.lit
    · simp [hl]
    · by_cases hn : l = -e.lit
      · have hnot : -e.lit ∉ earlier.map (·.lit) := by
          intro hmem
          obtain ⟨d, hd, heq⟩ := List.mem_map.1 hmem
          have hset := h.2.value_of_mem ha hd
          rw [heq, (h.2.consistent ha).opposite _ _ h.1] at hset
          cases hset
        rw [if_neg hl, if_pos hn, hn, List.map_cons, if_neg, if_pos]
        · simp
        · rw [List.mem_cons, not_or]
          exact ⟨Literal.neg_ne e.lit, hnot⟩
      · have hn' : -l ≠ e.lit := fun h => hn (by rw [← h, Literal.neg_neg])
        simp only [List.map_cons, List.mem_cons, hl, hn, hn', false_or, if_false]

/-- What is free after a trail was free before it. -/
theorem value_unset (h : Fits a trail) (ha : a.Consistent)
    (hl : (a.after trail).value l = .ok .unset) : a.value l = .ok .unset := by
  induction trail with
  | nil => exact hl
  | cons e earlier ih =>
    rw [Assignment.after, Assignment.value_put (h.2.consistent ha) h.1] at hl
    split_ifs at hl with h₁ h₂
    · cases hl
    · cases hl
    · exact ih h.2 hl

theorem free (h : Fits a trail) (ha : a.Consistent) (he : e ∈ trail) :
    a.value e.lit = .ok .unset := by
  obtain ⟨later, earlier, rfl⟩ := List.append_of_mem he
  exact h.of_append.2.value_unset ha h.of_append.1

/-- No variable is on a trail twice. -/
theorem nodup (h : Fits a trail) (ha : a.Consistent) : (trail.map (·.lit.var)).Nodup := by
  induction trail with
  | nil => exact List.nodup_nil
  | cons e earlier ih =>
    refine List.nodup_cons.2 ⟨fun hmem => ?_, ih h.2⟩
    obtain ⟨d, hd, hvar⟩ := List.mem_map.1 hmem
    have hset := h.2.value_of_mem ha hd
    rw [(h.2.consistent ha).value_unset_of_var h.1 hvar] at hset
    cases hset

theorem extendedBy_iff (h : Fits a trail) (ha : a.Consistent) {μ : Valuation} :
    (a.after trail).ExtendedBy μ ↔ a.ExtendedBy μ ∧ ∀ e ∈ trail, e.lit.Holds μ := by
  induction trail with
  | nil => simp [Assignment.after]
  | cons e earlier ih =>
    rw [Assignment.after, Assignment.extendedBy_put_iff (h.2.consistent ha) h.1, ih h.2,
      List.forall_mem_cons]
    exact and_left_comm

end Fits

namespace Search

variable {s : Search}

/-! ## Adding to the trail -/

/-- The remembered phases. -/
def phases (s : Search) : Phases := s.solver.store.phases

/-- The counters. -/
def statistics (s : Search) : Statistics := s.solver.engine.statistics

/-- The search with another store. -/
def withStore (t : Store) (s : Search) : Search := { s with solver := { s.solver with store := t } }

/-- The search with one more literal true, for a reason. -/
def pushed (l : Literal) (r : Reason) (s : Search) : Search :=
  { s.withStore ⟨s.assignment.put l, s.phases⟩ with trail := ⟨l, r⟩ :: s.trail }

/-- The search with its counters changed. -/
def counted (f : Statistics → Statistics) (s : Search) : Search :=
  { s with solver.engine.statistics := f s.statistics }

theorem onStore_eq {α : Type} {c : Change Store α} {x : α} {t : Store}
    (h : c s.solver.store = .ok x t) : onStore c s = .ok x (s.withStore t) := by
  simp [onStore, onSolver, Solver.onStore, h, withStore]

theorem count_eq (f : Statistics → Statistics) (s : Search) :
    onSolver (Solver.count f) s = .ok () (s.counted f) := by
  simp [onSolver, Solver.count, counted, statistics]

theorem push_eq (ha : s.assignment.Consistent) (hl : s.assignment.value l = .ok .unset)
    (r : Reason) : push l r s = .ok () (s.pushed l r) := by
  have h := Assignment.assign_eq ha hl
  rw [assignment] at h
  simp [push, onStore, onSolver, Solver.onStore, Store.onAssignment, h, pushed, withStore, phases,
    assignment]

/-! ## Remembering phases -/

/-- The phases after the values are remembered as target and as best phases, where there are more
of them than there were before. -/
def recordedPhases (s : Search) : Phases :=
  { s.phases with
    target :=
      if s.targetAssigned < s.assignment.assigned
      then s.phases.target.overlaid s.assignment.varValues else s.phases.target
    best :=
      if s.bestAssigned < s.assignment.assigned
      then s.phases.best.overlaid s.assignment.varValues else s.phases.best }

/-- The search after it has remembered its values. -/
def recorded (s : Search) : Search :=
  { s.withStore ⟨s.assignment, s.recordedPhases⟩ with
    targetAssigned := max s.targetAssigned s.assignment.assigned
    bestAssigned := max s.bestAssigned s.assignment.assigned }

theorem savePhases_eq (ht : s.phases.target.size = s.assignment.vars)
    (hb : s.phases.best.size = s.assignment.vars) : savePhases s = .ok () s.recorded := by
  have hmax (m n : Nat) : max m n = if m < n then n else m := by split <;> omega
  unfold phases assignment at ht hb
  by_cases h₁ : s.targetAssigned < s.solver.store.assignment.assigned <;>
    by_cases h₂ : s.bestAssigned < s.solver.store.assignment.assigned <;>
    simp [savePhases, onStore, onSolver, Solver.onStore, assignment, phases, h₁, h₂, hmax,
      Store.saveTarget_eq, Store.saveBest_eq, ht, hb, recorded, recordedPhases, withStore]

/-! ## Taking back -/

/-- The phases after the signs of entries are saved, the latest entry first. -/
def notingAll (p : Phases) (gone : List Entry) : Phases :=
  gone.foldl (fun p e => p.noting e.lit) p

/-- The search after the entries `gone` are taken back and `earlier` ones are left, with the values
that these lead to. -/
def takenBack (a : Assignment) (gone earlier : List Entry) (s : Search) : Search :=
  { s.withStore ⟨a.after earlier, notingAll s.phases gone⟩ with trail := earlier }

/-- The search after it has gone back to a decision and has tried the opposite. -/
def flipped (a : Assignment) (gone : List Entry) (l : Literal) (earlier : List Entry)
    (s : Search) : Search :=
  { (s.takenBack a (gone ++ [⟨l, .decided⟩]) earlier).pushed (-l) .flipped with
    targetAssigned := if level earlier = 0 then 0 else s.targetAssigned }

/-- What is needed to take back the trail of a search. -/
structure Grounded (a : Assignment) (s : Search) : Prop where
  consistent : a.Consistent
  assignment : s.assignment = a.after s.trail
  fits : Fits a s.trail
  sized : s.phases.Sized a.vars

theorem Grounded.assignment_consistent (hs : s.Grounded a) : s.assignment.Consistent :=
  hs.assignment ▸ hs.fits.consistent hs.consistent

theorem Grounded.vars_assignment (hs : s.Grounded a) : s.assignment.vars = a.vars := by
  rw [hs.assignment, Assignment.vars_after]

theorem Grounded.counted (hs : s.Grounded a) (f : Statistics → Statistics) :
    (s.counted f).Grounded a :=
  ⟨hs.consistent, hs.assignment, hs.fits, hs.sized⟩

theorem Grounded.pushed (hs : s.Grounded a) (hl : s.assignment.value l = .ok .unset)
    (r : Reason) : (s.pushed l r).Grounded a where
  consistent := hs.consistent
  assignment := by
    show s.assignment.put l = (a.after s.trail).put l
    rw [hs.assignment]
  fits := ⟨hs.assignment ▸ hl, hs.fits⟩
  sized := hs.sized

theorem sized_notingAll {n : Nat} {p : Phases} (h : p.Sized n) (gone : List Entry) :
    (notingAll p gone).Sized n := by
  induction gone generalizing p with
  | nil => exact h
  | cons e gone ih => exact ih (h.noting e.lit)

variable {gone : List Entry}

theorem Grounded.takenBack (hs : s.Grounded a) (ht : s.trail = gone ++ earlier) :
    (s.takenBack a gone earlier).Grounded a where
  consistent := hs.consistent
  assignment := rfl
  fits := (ht ▸ hs.fits : Fits a (gone ++ earlier)).of_append
  sized := sized_notingAll hs.sized gone

/-- The latest entry is taken back before its reason is looked at. -/
theorem unwind_cons (hs : s.Grounded a) (ht : s.trail = e :: earlier) :
    unwind (e :: earlier) s =
      (if e.reason = .decided then do
        if level earlier = 0 then
          modify fun s => { s with targetAssigned := 0 }
        push (-e.lit) .flipped
        return true
      else unwind earlier) (s.takenBack a [e] earlier) := by
  have hfits : Fits a (e :: earlier) := ht ▸ hs.fits
  have hc := hfits.2.consistent hs.consistent
  have hlt : e.lit.var.index < s.phases.saved.size := by
    have := hc.var_lt hfits.1
    rwa [Assignment.vars_after, ← hs.sized.saved] at this
  have hstore : s.solver.store = ⟨(a.after earlier).put e.lit, s.phases⟩ := by
    have := hs.assignment
    rw [ht] at this
    exact congrArg (Store.mk · s.phases) this
  have hback := Store.backtrack_eq hc hfits.1 hlt
  have hpop : onStore (Store.backtrack e.lit.var) { s with trail := earlier } =
      .ok (Phase.ofBool e.lit.positive) (s.takenBack a [e] earlier) := by
    rw [← hstore] at hback
    exact onStore_eq (s := { s with trail := earlier }) hback
  rw [unwind]
  simp only [Change.bind_run, Change.modify_run, hpop]

/-- Entries that are not decided are taken back one after the other. -/
theorem unwind_append (hs : s.Grounded a) (ht : s.trail = gone ++ earlier)
    (hg : ∀ e ∈ gone, e.reason ≠ .decided) :
    unwind (gone ++ earlier) s = unwind earlier (s.takenBack a gone earlier) := by
  induction gone generalizing s with
  | nil =>
    have : s = s.takenBack a [] earlier := by
      obtain rfl : s.trail = earlier := ht
      unfold Search.takenBack
      rw [← hs.assignment]
      rfl
    rw [← this]
    rfl
  | cons e gone ih =>
    have ht' : s.trail = e :: (gone ++ earlier) := ht
    have hs' : (s.takenBack a [e] (gone ++ earlier)).Grounded a := hs.takenBack ht'
    rw [List.cons_append, unwind_cons hs ht', if_neg (hg e List.mem_cons_self),
      ih hs' rfl fun d hd => hg d (List.mem_cons_of_mem _ hd)]
    rfl

/-- **Backtracking flips the latest open decision.** -/
theorem backtrack_eq_flip (hs : s.Grounded a) (ht : s.trail = gone ++ ⟨l, .decided⟩ :: earlier)
    (hg : ∀ e ∈ gone, e.reason ≠ .decided) :
    backtrack s = .ok true (s.flipped a gone l earlier) := by
  have hs₁ := hs.takenBack ht
  have hs₂ := hs.takenBack (ht.trans (List.append_cons ..))
  have hc := hs₂.fits.consistent hs.consistent
  have hfree : (a.after earlier).value (-l) = .ok .unset := hc.opposite _ _ hs₁.fits.1
  have htwice :
      (s.takenBack a gone (⟨l, .decided⟩ :: earlier)).takenBack a [⟨l, .decided⟩] earlier =
        s.takenBack a (gone ++ [⟨l, .decided⟩]) earlier := by
    unfold Search.takenBack notingAll
    rw [List.foldl_append]
    rfl
  have hback : backtrack s = unwind s.trail s := rfl
  rw [hback, ht, unwind_append hs ht hg, unwind_cons hs₁ rfl, if_pos rfl, htwice]
  by_cases hlevel : level earlier = 0
  · have hpush := push_eq (s := { s.takenBack a (gone ++ [⟨l, .decided⟩]) earlier with
      targetAssigned := 0 }) hc hfree .flipped
    simp only [hlevel, if_true, Change.bind_run, Change.modify_run, Change.pure_run, hpush,
      Search.flipped]
    rfl
  · have hpush := push_eq (s := s.takenBack a (gone ++ [⟨l, .decided⟩]) earlier) hc hfree .flipped
    simp only [hlevel, if_false, Change.bind_run, Change.pure_run, hpush, Search.flipped]
    rfl

/-- **Without an open decision, backtracking takes everything back.** -/
theorem backtrack_eq_empty (hs : s.Grounded a) (hg : ∀ e ∈ s.trail, e.reason ≠ .decided) :
    backtrack s = .ok false (s.takenBack a s.trail []) := by
  have h := unwind_append hs (List.append_nil _).symm hg
  rw [List.append_nil] at h
  exact h

end Search

end Polarity
