import Mathlib.Data.List.Nodup
import Mathlib.Tactic.ByContra
import Polarity.Proofs.Search.Rounds

/-!
# The conflicts of a search

**The history of a run** (`conflicts`) lists the conflicts that so many rounds meet. Of each it
keeps two states: that in which propagation has found a clause with only false literals, and that
after the search has gone back. A round that meets no conflict leaves alone all that conflicts
change (`Continues`), and one that does goes back in one of two ways (`GoesBack`).

**Undoing.** Going back undoes the variables of the entries that it takes from the trail. They are
found again by comparing the two trails (`GoesBack.exists_undone`).

**The bottom-most decision** is flipped at most once in a run. Once it is flipped it stays at the
bottom of the trail, where it still counts as a decision, until the search gives up
(`FlippedOnce`).
-/

namespace Polarity

namespace Search

variable {a : Assignment} {clauses : List Clause} {s t u : Search} {r : Option Outcome} {m n : Nat}
  {e : Entry} {l : Literal} {v : Variable} {gone earlier new trail : List Entry}

/-! ## Histories -/

/-- A conflict: the search that has met it, and the search after it has gone back. -/
structure Conflict where
  met : Search
  left : Search

/-- The conflict that the next round meets, if it meets one. -/
def conflict? (clauses : List Clause) (s : Search) : Option Conflict :=
  if s.solver.engine.terminated then none
  else
    match propagate clauses s, round clauses s with
    | .ok false met, .ok _ left => some ⟨met, left⟩
    | _, _ => none

/-- The conflicts that so many rounds meet, the latest first. -/
def conflicts (clauses : List Clause) : Nat → Search → List Conflict
  | 0, _ => []
  | n + 1, s =>
    (match round clauses s with
      | .ok none t => conflicts clauses n t
      | _ => []) ++ (conflict? clauses s).toList

theorem conflicts_succ (h : iterate clauses n s = .ok none t) :
    conflicts clauses (n + 1) s = (conflict? clauses t).toList ++ conflicts clauses n s := by
  induction n generalizing s with
  | zero =>
    obtain rfl : s = t := by simpa [iterate] using h
    cases hs : round clauses s with
    | error e u => simp [conflicts, hs]
    | ok r u => cases r <;> simp [conflicts, hs]
  | succ n ih =>
    simp only [iterate, Change.bind_run] at h
    rw [conflicts, conflicts]
    cases hs : round clauses s with
    | error e u => simp [hs] at h
    | ok r u => cases r with
      | some o => simp [hs] at h
      | none =>
        simp only [hs] at h ⊢
        rw [ih h, List.append_assoc]

/-- After a result there are no more conflicts. -/
theorem conflicts_of_le {o : Outcome} (h : iterate clauses m s = .ok (some o) t) (hmn : m ≤ n) :
    conflicts clauses n s = conflicts clauses m s := by
  induction m generalizing s n with
  | zero => simp [iterate] at h
  | succ m ih =>
    obtain ⟨n, rfl⟩ := Nat.exists_eq_add_of_le' (Nat.le_trans (Nat.le_add_left 1 m) hmn)
    simp only [iterate, Change.bind_run] at h
    rw [conflicts, conflicts]
    cases hs : round clauses s with
    | error e u => rfl
    | ok r u => cases r with
      | some o => rfl
      | none =>
        simp only [hs] at h ⊢
        rw [ih h (Nat.le_of_succ_le_succ hmn)]

/-! ## One round -/

/-- What rounds without a conflict leave alone: the trail only gets longer. -/
structure Continues (s t : Search) : Prop where
  phases : t.phases = s.phases
  bestAssigned : t.bestAssigned = s.bestAssigned
  targetAssigned : t.targetAssigned = s.targetAssigned
  conflicts : t.statistics.conflicts = s.statistics.conflicts
  trail : ∃ new, t.trail = new ++ s.trail

theorem Draws.continues (h : Draws clauses s t) : s.Continues t where
  phases := h.kept.phases
  bestAssigned := h.kept.bestAssigned
  targetAssigned := h.kept.targetAssigned
  conflicts := h.kept.conflicts
  trail := h.kept.implied.imp fun _ hnew => hnew.1

/-- What a search does after a conflict, where `a` is the assignment before the trail: it flips the
latest open decision, or finds that there is none and gives up. -/
inductive GoesBack (a : Assignment) (u : Search) : Option Outcome → Search → Prop
  | flipped {gone earlier : List Entry} {l : Literal}
      (trail : u.trail = gone ++ ⟨l, .decided⟩ :: earlier) :
      GoesBack a u none (u.conflicted.flipped a gone l earlier)
  | refuted : GoesBack a u (some .unsat) (u.conflicted.takenBack a u.trail [])

/-- **A round meets no conflict and continues, or it meets one and goes back.** -/
theorem conflict?_cases (hs : s.Grounded a) (hcl : Covers a.vars clauses)
    (hround : round clauses s = .ok r t) :
    (conflict? clauses s = none ∧ s.Continues t) ∨
      ∃ u, u.Grounded a ∧ s.Continues u ∧ conflict? clauses s = some ⟨u, t⟩ ∧ GoesBack a u r t := by
  by_cases hflag : s.solver.engine.terminated = true
  · have hstop : round clauses s = .ok (some .unknown) s := by simp [round, hflag]
    obtain ⟨-, rfl⟩ : some .unknown = r ∧ s = t := by simpa [hstop] using hround
    exact Or.inl ⟨by simp [conflict?, hflag], rfl, rfl, rfl, rfl, [], rfl⟩
  rw [Bool.not_eq_true] at hflag
  obtain ⟨b, u, hrun, hdraws, -⟩ := propagate_spec (hs.ready hcl)
  have hu := hs.draws hcl hdraws
  cases b with
  | true =>
    refine Or.inl ⟨by simp [conflict?, hflag, hrun], ?_⟩
    rcases round_of_quiet hu hflag hrun with ⟨-, hround'⟩ | ⟨v, p, -, -, hround'⟩
    · obtain ⟨-, rfl⟩ : some (.sat u.assignment.model) = r ∧ u = t := by
        simpa [hround'] using hround
      exact hdraws.continues
    · obtain ⟨-, rfl⟩ : none = r ∧ u.decidedOn ⟨v, p ≠ .negative⟩ = t := by
        simpa [hround'] using hround
      obtain ⟨hphases, hbest, htarget, hconflicts, new, hnew⟩ := hdraws.continues
      exact ⟨hphases, hbest, htarget, hconflicts, _ :: new, congrArg (_ :: ·) hnew⟩
  | false =>
    refine Or.inr ⟨u, hu, hdraws.continues, by simp [conflict?, hflag, hrun, hround], ?_⟩
    rcases round_of_conflict hu hflag hrun with ⟨gone, l, earlier, htrail, -, hround'⟩ |
      ⟨-, hround'⟩
    · obtain ⟨rfl, rfl⟩ : none = r ∧ u.conflicted.flipped a gone l earlier = t := by
        simpa [hround'] using hround
      exact .flipped htrail
    · obtain ⟨rfl, rfl⟩ : some .unsat = r ∧ u.conflicted.takenBack a u.trail [] = t := by
        simpa [hround'] using hround
      exact .refuted

/-! ## Undoing -/

/-- Going back has taken an entry for the variable from the trail. -/
def Conflict.Undoes (v : Variable) (c : Conflict) : Prop :=
  ∃ e ∈ c.met.trail, e.lit.var = v ∧ e ∉ c.left.trail

instance (v : Variable) (c : Conflict) : Decidable (c.Undoes v) :=
  inferInstanceAs (Decidable (∃ e ∈ c.met.trail, e.lit.var = v ∧ e ∉ c.left.trail))

theorem undoes_iff (front : List Entry) (hu : u.trail = gone ++ earlier)
    (ht : t.trail = front ++ earlier) (hfront : ∀ e ∈ front, e ∉ u.trail)
    (hnodup : u.trail.Nodup) : Conflict.Undoes v ⟨u, t⟩ ↔ ∃ e ∈ gone, e.lit.var = v := by
  rw [hu] at hfront hnodup
  simp only [Conflict.Undoes, hu, ht, List.mem_append, not_or]
  constructor
  · rintro ⟨e, he, hvar, -, hearlier⟩
    exact ⟨e, he.resolve_right hearlier, hvar⟩
  · rintro ⟨e, he, hvar⟩
    refine ⟨e, Or.inl he, hvar, fun hmem => hfront e hmem (List.mem_append_left _ he), ?_⟩
    exact fun hmem => List.disjoint_of_nodup_append hnodup he hmem

/-- **The variables that are undone** are those of some entries of the trail, and their signs are
saved. -/
theorem GoesBack.exists_undone (h : GoesBack a u r t) (hu : u.Grounded a) :
    ∃ gone, (∀ e ∈ gone, e ∈ u.trail) ∧ t.phases = notingAll u.recordedPhases gone ∧
      ∀ v, Conflict.Undoes v ⟨u, t⟩ ↔ ∃ e ∈ gone, e.lit.var = v := by
  have hvars := hu.fits.nodup hu.consistent
  have hnodup : u.trail.Nodup := List.Nodup.of_map _ hvars
  cases h with
  | @flipped gone earlier l htrail =>
    have htrail' : u.trail = (gone ++ [⟨l, .decided⟩]) ++ earlier := by
      rw [htrail, List.append_cons]
    refine ⟨gone ++ [⟨l, .decided⟩], fun e he => ?_, rfl, fun v => ?_⟩
    · exact htrail' ▸ List.mem_append_left _ he
    · refine undoes_iff [⟨-l, .flipped⟩] htrail' rfl (fun e he hmem => ?_) hnodup
      -- The flipped literal is new: its variable stands on the trail with the decision only.
      obtain rfl := List.mem_singleton.1 he
      have hdecided : (⟨l, .decided⟩ : Entry) ∈ u.trail := by simp [htrail]
      have hsame := List.inj_on_of_nodup_map hvars hmem hdecided rfl
      simp at hsame
  | refuted =>
    refine ⟨u.trail, fun _ he => he, rfl, fun v => ?_⟩
    exact undoes_iff [] (List.append_nil _).symm rfl (by simp) hnodup

/-! ## The bottom-most decision -/

/-- The bottom-most decision of a trail, flipped or not. -/
def bottom? (trail : List Entry) : Option Entry :=
  (trail.filter fun e => e.reason ≠ .implied).getLast?

/-- Going back has flipped the bottom-most decision of the trail. -/
def Conflict.flipsBottom (c : Conflict) : Bool :=
  match bottom? c.met.trail, bottom? c.left.trail with
  | some d, some e => d.reason = .decided ∧ e = ⟨-d.lit, .flipped⟩
  | _, _ => false

theorem bottom?_append : bottom? (new ++ trail) = (bottom? trail).or (bottom? new) := by
  rw [bottom?, List.filter_append, List.getLast?_append]
  rfl

theorem bottom?_cons (he : e.reason ≠ .implied) :
    bottom? (e :: trail) = some ((bottom? trail).getD e) := by
  have hsingle : bottom? [e] = some e := by simp [bottom?, he]
  rw [← List.singleton_append, bottom?_append, hsingle]
  cases bottom? trail <;> rfl

theorem level_eq_zero_iff : level trail = 0 ↔ bottom? trail = none := by
  simp [level, bottom?, List.countP_eq_zero]

/-- The bottom-most decisions before and after a flip. -/
theorem bottom?_of_flip (hu : u.trail = gone ++ ⟨l, .decided⟩ :: earlier)
    (ht : t.trail = ⟨-l, .flipped⟩ :: earlier) :
    bottom? u.trail = some ((bottom? earlier).getD ⟨l, .decided⟩) ∧
      bottom? t.trail = some ((bottom? earlier).getD ⟨-l, .flipped⟩) := by
  constructor
  · rw [hu, bottom?_append, bottom?_cons (by simp)]
    rfl
  · rw [ht, bottom?_cons (by simp)]

/-- It is the bottom-most decision that is flipped if there is none left below it. -/
theorem flipsBottom_iff (hu : u.trail = gone ++ ⟨l, .decided⟩ :: earlier)
    (ht : t.trail = ⟨-l, .flipped⟩ :: earlier) :
    Conflict.flipsBottom ⟨u, t⟩ = true ↔ bottom? earlier = none := by
  obtain ⟨hbefore, hafter⟩ := bottom?_of_flip hu ht
  rw [Conflict.flipsBottom, hbefore, hafter]
  cases bottom? earlier with
  | none => simp
  | some d =>
    obtain ⟨k, reason⟩ := d
    cases reason <;> simp

/-- The bottom-most decision was flipped at no more than one of the conflicts, and if it was, it is
still at the bottom of the trail. -/
structure FlippedOnce (history : List Conflict) (trail : List Entry) : Prop where
  once : history.countP (·.flipsBottom) ≤ 1
  root : 0 < history.countP (·.flipsBottom) → ∃ l, bottom? trail = some ⟨l, .flipped⟩

variable {history : List Conflict}

theorem FlippedOnce.continues (h : FlippedOnce history s.trail) (hst : s.Continues t) :
    FlippedOnce history t.trail where
  once := h.once
  root hpos := by
    obtain ⟨l, hl⟩ := h.root hpos
    obtain ⟨new, hnew⟩ := hst.trail
    exact ⟨l, by rw [hnew, bottom?_append, hl]; rfl⟩

/-- Flipping the bottom-most decision leaves a flipped one at the bottom, and flipping another one
leaves the bottom as it is. -/
theorem FlippedOnce.flip (h : FlippedOnce history u.trail)
    (hu : u.trail = gone ++ ⟨l, .decided⟩ :: earlier) (ht : t.trail = ⟨-l, .flipped⟩ :: earlier) :
    FlippedOnce (⟨u, t⟩ :: history) t.trail := by
  obtain ⟨hbefore, hafter⟩ := bottom?_of_flip hu ht
  have hflips := flipsBottom_iff hu ht
  have hroot := h.root
  have honce := h.once
  rw [hbefore] at hroot
  cases hbottom : bottom? earlier with
  | none =>
    -- The bottom-most decision was open up to now, so none of the earlier conflicts has flipped it.
    have hnone : history.countP (·.flipsBottom) = 0 := by
      by_contra hpos
      obtain ⟨k, hk⟩ := hroot (Nat.pos_of_ne_zero hpos)
      simp [hbottom] at hk
    refine ⟨?_, fun _ => ⟨-l, by simp [hafter, hbottom]⟩⟩
    rw [List.countP_cons, hnone, if_pos (hflips.2 hbottom)]
  | some d =>
    have hother : ¬ Conflict.flipsBottom ⟨u, t⟩ = true := by simp [hflips, hbottom]
    constructor
    · rwa [List.countP_cons, if_neg hother]
    · rw [List.countP_cons, if_neg hother, hafter]
      simpa [hbottom] using hroot

theorem not_flipsBottom_of_nil (ht : t.trail = []) :
    ¬ Conflict.flipsBottom ⟨u, t⟩ = true := by
  have hnone : bottom? t.trail = none := by rw [ht]; rfl
  rw [Conflict.flipsBottom, hnone]
  cases bottom? u.trail <;> exact Bool.false_ne_true

theorem FlippedOnce.goesBack (h : FlippedOnce history u.trail) (hback : GoesBack a u r t) :
    (⟨u, t⟩ :: history : List Conflict).countP (·.flipsBottom) ≤ 1 ∧
      (r = none → FlippedOnce (⟨u, t⟩ :: history) t.trail) := by
  cases hback with
  | @flipped gone earlier l htrail =>
    have hflip := h.flip (t := u.conflicted.flipped a gone l earlier) htrail rfl
    exact ⟨hflip.once, fun _ => hflip⟩
  | refuted =>
    refine ⟨?_, nofun⟩
    rw [List.countP_cons, if_neg (not_flipsBottom_of_nil rfl)]
    exact h.once

end Search

end Polarity
