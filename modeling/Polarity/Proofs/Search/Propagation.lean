import Mathlib.Logic.Relation
import Polarity.Proofs.Search.Trail
import Polarity.Search.Propagation

/-!
# What propagation does

**One conclusion** (`Draw`). Some clause has one free occurrence of a literal and nothing but false
ones beside it, and this literal is made true.

**Propagation** is a sequence of such conclusions (`Draws`), at the end of which either a clause has
only false literals (`Refutes`) or no clause allows another conclusion (`Quiet`): `propagate_spec`.
Each pass but the last draws a conclusion, so the passes never run out (`exists_sweeps`).

What holds of one conclusion then holds of propagation by induction. A valuation that satisfies the
clauses and extends the assignment before extends the one after (`Draws.extendedBy`), and nothing
but the assignment, the trail and one counter changes (`Draws.kept`).
-/

namespace Polarity

variable {a : Assignment} {c : Clause} {clauses some : List Clause} {k l : Literal}
  {μ : Valuation}

/-! ## The status of a clause -/

/-- What a status says about the literals of a clause. -/
def ClauseStatus.Describes (a : Assignment) (c : Clause) : ClauseStatus → Prop
  | .satisfied => ∃ l ∈ c, a.value l = .ok .positive
  | .falsified => ∀ l ∈ c, a.value l = .ok .negative
  | .unit l => ∃ front back, c = front ++ l :: back ∧ a.value l = .ok .unset ∧
      ∀ k ∈ front ++ back, a.value k = .ok .negative
  | .undecided => (∀ l ∈ c, a.value l ≠ .ok .positive) ∧
      ∃ k l, [k, l].Sublist c ∧ a.value k = .ok .unset ∧ a.value l = .ok .unset

/-- A false literal in front changes nothing. -/
theorem ClauseStatus.Describes.cons_negative {r : ClauseStatus} (h : r.Describes a c)
    (hl : a.value l = .ok .negative) : r.Describes a (l :: c) := by
  cases r with
  | satisfied =>
    obtain ⟨k, hk, hp⟩ := h
    exact ⟨k, List.mem_cons_of_mem _ hk, hp⟩
  | falsified => exact List.forall_mem_cons.2 ⟨hl, h⟩
  | unit k =>
    obtain ⟨front, back, rfl, hk, hrest⟩ := h
    exact ⟨l :: front, back, rfl, hk, List.forall_mem_cons.2 ⟨hl, hrest⟩⟩
  | undecided =>
    obtain ⟨hno, k, m, hkm, hk, hm⟩ := h
    exact ⟨List.forall_mem_cons.2 ⟨by simp [hl], hno⟩, k, m, hkm.cons l, hk, hm⟩

/-- A free literal in front is the only one left of a false clause, and one more than enough of any
other that is not satisfied. -/
theorem ClauseStatus.Describes.cons_unset {r : ClauseStatus} (h : r.Describes a c)
    (hl : a.value l = .ok .unset) :
    (match r with
      | .satisfied => ClauseStatus.satisfied
      | .falsified => .unit l
      | _ => .undecided).Describes a (l :: c) := by
  cases r with
  | satisfied =>
    obtain ⟨k, hk, hp⟩ := h
    exact ⟨k, List.mem_cons_of_mem _ hk, hp⟩
  | falsified => exact ⟨[], c, rfl, hl, h⟩
  | unit k =>
    obtain ⟨front, back, rfl, hk, hrest⟩ := h
    refine ⟨List.forall_mem_cons.2 ⟨by simp [hl], fun m hm hp => ?_⟩, l, k, ?_, hl, hk⟩
    · rcases List.mem_append.1 hm with hm | hm
      · simp [hrest m (List.mem_append_left _ hm)] at hp
      · rcases List.mem_cons.1 hm with rfl | hm
        · simp [hk] at hp
        · simp [hrest m (List.mem_append_right _ hm)] at hp
    · exact (List.singleton_sublist.2 (by simp)).cons_cons l
  | undecided =>
    obtain ⟨hno, k, m, hkm, hk, hm⟩ := h
    exact ⟨List.forall_mem_cons.2 ⟨by simp [hl], hno⟩, k, m, hkm.cons l, hk, hm⟩

/-- Every clause over the variables has a status, and the status is right. -/
theorem Clause.exists_status (ha : a.Consistent) (hc : ∀ l ∈ c, l.var.index < a.vars) :
    ∃ r, Clause.status a c = .ok r ∧ r.Describes a c := by
  induction c with
  | nil => exact ⟨.falsified, rfl, by simp [ClauseStatus.Describes]⟩
  | cons l c ih =>
    obtain ⟨p, hp⟩ := ha.exists_value (hc l List.mem_cons_self)
    obtain ⟨r, hr, hd⟩ := ih fun k hk => hc k (List.mem_cons_of_mem _ hk)
    cases p with
    | positive =>
      refine ⟨.satisfied, by simp [Clause.status, hp, bind, Except.bind, pure, Except.pure], ?_⟩
      exact ⟨l, List.mem_cons_self, hp⟩
    | negative => exact ⟨r, by simp [Clause.status, hp, hr, bind, Except.bind], hd.cons_negative hp⟩
    | unset =>
      refine ⟨_, ?_, hd.cons_unset hp⟩
      cases r <;> simp [Clause.status, hp, hr, bind, Except.bind, pure, Except.pure]

theorem Clause.describes_of_status (ha : a.Consistent) (hc : ∀ l ∈ c, l.var.index < a.vars)
    {r : ClauseStatus} (h : Clause.status a c = .ok r) : r.Describes a c := by
  obtain ⟨r', hr, hd⟩ := Clause.exists_status ha hc
  obtain rfl : r' = r := by simpa [hr] using h
  exact hd

/-- **Unit conclusions are sound**: the literal holds in every valuation that satisfies the clause
and extends the assignment. -/
theorem Clause.holds_of_unit (ha : a.Consistent) (hc : ∀ l ∈ c, l.var.index < a.vars)
    (h : Clause.status a c = .ok (.unit l)) (hμ : Clause.Holds μ c) (he : a.ExtendedBy μ) :
    l.Holds μ := by
  obtain ⟨front, back, rfl, -, hrest⟩ := Clause.describes_of_status ha hc h
  obtain ⟨k, hk, hkμ⟩ := hμ
  have hk' : k = l ∨ k ∈ front ++ back := by
    simpa [or_left_comm] using hk
  rcases hk' with rfl | hk'
  · exact hkμ
  · exact absurd hkμ (he.not_holds ha (hrest k hk'))

theorem Clause.not_holds_of_falsified (ha : a.Consistent) (hc : ∀ l ∈ c, l.var.index < a.vars)
    (h : Clause.status a c = .ok .falsified) (he : a.ExtendedBy μ) : ¬ Clause.Holds μ c := by
  rintro ⟨k, hk, hkμ⟩
  exact he.not_holds ha (Clause.describes_of_status ha hc h k hk) hkμ

namespace Search

variable {s t u : Search}

/-! ## Conclusions -/

/-- The search with one more unit conclusion drawn. -/
def drawn (l : Literal) (s : Search) : Search := (s.counted .propagate).pushed l .implied

/-- One unit conclusion from a clause. -/
inductive Draw (clauses : List Clause) (s : Search) : Search → Prop
  | intro {c : Clause} {l : Literal} (mem : c ∈ clauses)
      (unit : Clause.status s.assignment c = .ok (.unit l)) : Draw clauses s (s.drawn l)

/-- Unit conclusions one after the other. -/
abbrev Draws (clauses : List Clause) : Search → Search → Prop :=
  Relation.ReflTransGen (Draw clauses)

/-- Some clause has only false literals. -/
def Refutes (clauses : List Clause) (a : Assignment) : Prop :=
  ∃ c ∈ clauses, Clause.status a c = .ok .falsified

/-- Each clause has a true literal, or no false ones but and two that are free. -/
def Quiet (clauses : List Clause) (a : Assignment) : Prop :=
  ∀ c ∈ clauses, Clause.status a c = .ok .satisfied ∨ Clause.status a c = .ok .undecided

/-- The clauses name only the first `n` variables. -/
def Covers (n : Nat) (clauses : List Clause) : Prop := ∀ c ∈ clauses, ∀ l ∈ c, l.var.index < n

/-- Everything but the assignment, the trail and the count of conclusions is the same, and the trail
is only longer. -/
structure Kept (s t : Search) : Prop where
  phases : t.phases = s.phases
  options : t.solver.options = s.solver.options
  terminated : t.solver.engine.terminated = s.solver.engine.terminated
  decisions : t.statistics.decisions = s.statistics.decisions
  conflicts : t.statistics.conflicts = s.statistics.conflicts
  bestAssigned : t.bestAssigned = s.bestAssigned
  targetAssigned : t.targetAssigned = s.targetAssigned
  implied : ∃ new, t.trail = new ++ s.trail ∧ (∀ e ∈ new, e.reason = .implied) ∧
    t.statistics.propagations = s.statistics.propagations + UInt64.ofNat new.length

theorem Draws.kept (h : Draws clauses s t) : s.Kept t := by
  induction h with
  | refl => exact ⟨rfl, rfl, rfl, rfl, rfl, rfl, rfl, [], rfl, by simp, by simp⟩
  | @tail t u _ hd ih =>
    obtain ⟨hp, ho, hf, hde, hco, hb, hta, new, htr, hr, hn⟩ := ih
    cases hd with
    | @intro c l _ _ =>
      refine ⟨hp, ho, hf, hde, hco, hb, hta, ⟨l, .implied⟩ :: new, ?_, ?_, ?_⟩
      · exact congrArg (_ :: ·) htr
      · exact List.forall_mem_cons.2 ⟨rfl, hr⟩
      · show t.statistics.propagations + 1 = _
        rw [hn, List.length_cons, UInt64.ofNat_add, UInt64.add_assoc]
        rfl

/-- What propagation needs: consistent values, of all variables that the clauses name. -/
structure Ready (clauses : List Clause) (s : Search) : Prop where
  consistent : s.assignment.Consistent
  covers : Covers s.assignment.vars clauses

theorem Grounded.ready (hs : s.Grounded a) (hcl : Covers a.vars clauses) : s.Ready clauses where
  consistent := hs.assignment_consistent
  covers := hs.vars_assignment ▸ hcl

theorem Ready.value_unset_of_unit (hs : s.Ready clauses) (hc : c ∈ clauses)
    (hu : Clause.status s.assignment c = .ok (.unit l)) : s.assignment.value l = .ok .unset := by
  obtain ⟨-, -, -, hl, -⟩ := Clause.describes_of_status hs.consistent (hs.covers c hc) hu
  exact hl

/-- **What conclusions add**: entries for literals that were free, one after the other. -/
theorem Draws.adds (hs : s.Ready clauses) (h : Draws clauses s t) :
    t.Ready clauses ∧ ∃ new, t.trail = new ++ s.trail ∧ t.assignment = s.assignment.after new ∧
      Fits s.assignment new := by
  induction h with
  | refl => exact ⟨hs, [], rfl, rfl, trivial⟩
  | @tail t u _ hd ih =>
    obtain ⟨ht, new, htrail, hafter, hfits⟩ := ih
    cases hd with
    | @intro c l hc hu =>
      have hl := ht.value_unset_of_unit hc hu
      have hcovers : Covers (t.drawn l).assignment.vars clauses := by
        show Covers (t.assignment.put l).vars clauses
        rw [Assignment.vars_put]
        exact ht.covers
      refine ⟨⟨ht.consistent.put hl, hcovers⟩, ⟨l, .implied⟩ :: new, ?_, ?_, ?_⟩
      · exact congrArg (_ :: ·) htrail
      · exact congrArg (Assignment.put l) hafter
      · exact ⟨hafter ▸ hl, hfits⟩

theorem Ready.draws (hs : s.Ready clauses) (h : Draws clauses s t) : t.Ready clauses :=
  (h.adds hs).1

theorem Grounded.draws (hs : s.Grounded a) (hcl : Covers a.vars clauses)
    (h : Draws clauses s t) : t.Grounded a := by
  induction h with
  | refl => exact hs
  | tail _ hd ih =>
    cases hd with
    | intro hc hu =>
      exact (ih.counted .propagate).pushed ((ih.ready hcl).value_unset_of_unit hc hu) .implied

/-- **Propagation is sound**: a valuation that satisfies the clauses and extends the assignment
before extends the one after. -/
theorem Draws.extendedBy (h : Draws clauses s t) (hs : s.Ready clauses)
    (hμ : ∀ c ∈ clauses, Clause.Holds μ c) (he : s.assignment.ExtendedBy μ) :
    t.assignment.ExtendedBy μ := by
  induction h with
  | refl => exact he
  | @tail t u ht hd ih =>
    have ht := hs.draws ht
    cases hd with
    | @intro c l hc hu =>
      have hl := Clause.holds_of_unit ht.consistent (ht.covers c hc) hu (hμ c hc) ih
      exact (Assignment.extendedBy_put_iff ht.consistent (ht.value_unset_of_unit hc hu)).2 ⟨hl, ih⟩

/-- A refuted clause is false in every valuation that extends the assignment. -/
theorem Ready.not_forall_holds (hs : s.Ready clauses) (hr : Refutes clauses s.assignment)
    (he : s.assignment.ExtendedBy μ) : ¬ ∀ c ∈ clauses, Clause.Holds μ c := by
  intro hμ
  obtain ⟨c, hc, hstatus⟩ := hr
  exact Clause.not_holds_of_falsified hs.consistent (hs.covers c hc) hstatus he (hμ c hc)

/-- Each conclusion takes a free variable. -/
theorem Draws.free_lt (h : Draws clauses s t) (hs : s.Ready clauses)
    (hlt : s.trail.length < t.trail.length) : t.free < s.free := by
  obtain ⟨ht, new, htrail, hafter, -⟩ := h.adds hs
  have hle := ht.consistent.assigned_le
  unfold free
  rw [htrail, List.length_append] at hlt
  rw [hafter] at hle ⊢
  simp only [Assignment.vars_after, Assignment.assigned_after] at hle ⊢
  omega

/-! ## Passes -/

/-- What a pass over some of the clauses leaves. -/
def Leaves (clauses some : List Clause) (s t : Search) : Pass → Prop
  | .conflict => Refutes clauses t.assignment
  | .settled => t = s ∧ Quiet some s.assignment
  | .changed => s.trail.length < t.trail.length

theorem pass_spec (hs : s.Ready clauses) (hsub : some ⊆ clauses) :
    ∃ r t, pass some s = .ok r t ∧ Draws clauses s t ∧ Leaves clauses some s t r := by
  induction some generalizing s with
  | nil => exact ⟨.settled, s, rfl, .refl, rfl, by simp [Quiet]⟩
  | cons c later ih =>
    have hc : c ∈ clauses := hsub List.mem_cons_self
    have hlater : later ⊆ clauses := fun d hd => hsub (List.mem_cons_of_mem _ hd)
    obtain ⟨r, hr, -⟩ := Clause.exists_status hs.consistent (hs.covers c hc)
    -- A clause that allows no conclusion is passed over, and stays so if nothing changes later.
    have passed
        (h : Clause.status s.assignment c = .ok .satisfied ∨
          Clause.status s.assignment c = .ok .undecided)
        (hpass : pass (c :: later) s = pass later s) :
        ∃ r t, pass (c :: later) s = .ok r t ∧ Draws clauses s t ∧
          Leaves clauses (c :: later) s t r := by
      obtain ⟨r, t, ht, hdraws, hleaves⟩ := ih hs hlater
      refine ⟨r, t, hpass.trans ht, hdraws, ?_⟩
      cases r with
      | conflict => exact hleaves
      | settled => exact ⟨hleaves.1, List.forall_mem_cons.2 ⟨h, hleaves.2⟩⟩
      | changed => exact hleaves
    cases r with
    | satisfied => exact passed (Or.inl hr) (by simp [pass, hr])
    | falsified => exact ⟨.conflict, s, by simp [pass, hr], .refl, c, hc, hr⟩
    | undecided => exact passed (Or.inr hr) (by simp [pass, hr])
    | unit l =>
      have hdraw : Draw clauses s (s.drawn l) := .intro hc hr
      have hpush : push l .implied (s.counted .propagate) = .ok () (s.drawn l) :=
        push_eq (s := s.counted .propagate) hs.consistent (hs.value_unset_of_unit hc hr) _
      obtain ⟨r, t, ht, hdraws, hleaves⟩ := ih (hs.draws (.single hdraw)) hlater
      have hlt : s.trail.length < t.trail.length := by
        obtain ⟨new, hnew, -⟩ := hdraws.kept.implied
        rw [hnew, List.length_append]
        show s.trail.length < new.length + (s.trail.length + 1)
        omega
      have hdraws' : Draws clauses s t := .head hdraw hdraws
      cases r with
      | conflict =>
        exact ⟨.conflict, t, by simp [pass, hr, count_eq, hpush, ht], hdraws', hleaves⟩
      | settled => exact ⟨.changed, t, by simp [pass, hr, count_eq, hpush, ht], hdraws', hlt⟩
      | changed => exact ⟨.changed, t, by simp [pass, hr, count_eq, hpush, ht], hdraws', hlt⟩

/-- So many passes one after the other, of which the last one meets a conflict or changes nothing,
and no other one does. -/
inductive Sweeps (clauses : List Clause) : Nat → Search → Bool → Search → Prop
  | conflict {s t : Search} (last : pass clauses s = .ok .conflict t) : Sweeps clauses 1 s false t
  | settled {s t : Search} (last : pass clauses s = .ok .settled t) : Sweeps clauses 1 s true t
  | changed {s t u : Search} {k : Nat} {b : Bool} (first : pass clauses s = .ok .changed t)
      (later : Sweeps clauses k t b u) : Sweeps clauses (k + 1) s b u

/-- A bound that is not passed makes no difference. -/
theorem Sweeps.passes_eq {k bound : Nat} {b : Bool} (h : Sweeps clauses k s b t)
    (hk : k ≤ bound) : passes clauses bound s = .ok b t := by
  induction h generalizing bound with
  | conflict last =>
    obtain ⟨rest, rfl⟩ := Nat.exists_eq_add_of_le' hk
    simp [passes, last]
  | settled last =>
    obtain ⟨rest, rfl⟩ := Nat.exists_eq_add_of_le' hk
    simp [passes, last]
  | changed first _ ih =>
    obtain ⟨rest, rfl⟩ := Nat.exists_eq_add_of_le' hk
    simp [passes, first, ih (Nat.le_add_left _ rest)]

/-- **There is at most one more pass than free variables.** -/
theorem exists_sweeps (hs : s.Ready clauses) :
    ∃ k b t, Sweeps clauses k s b t ∧ k ≤ s.free + 1 ∧ Draws clauses s t ∧
      if b then Quiet clauses t.assignment else Refutes clauses t.assignment := by
  -- On the free variables, of which a pass that changes something leaves fewer.
  induction hfree : s.free using Nat.strongRecOn generalizing s with
  | ind n ih =>
    obtain ⟨r, t, ht, hdraws, hleaves⟩ := pass_spec hs (List.Subset.refl clauses)
    cases r with
    | conflict => exact ⟨1, false, t, .conflict ht, Nat.le_add_left 1 n, hdraws, hleaves⟩
    | settled =>
      obtain ⟨rfl, hq⟩ := hleaves
      exact ⟨1, true, t, .settled ht, Nat.le_add_left 1 n, hdraws, hq⟩
    | changed =>
      have hlt : t.free < n := hfree ▸ hdraws.free_lt hs hleaves
      obtain ⟨k, b, u, hsweeps, hk, hdraws', hend⟩ := ih t.free hlt (hs.draws hdraws) rfl
      exact ⟨k + 1, b, u, .changed ht hsweeps, by omega, hdraws.trans hdraws', hend⟩

theorem Sweeps.propagate_eq {k : Nat} {b : Bool} (h : Sweeps clauses k s b t)
    (hk : k ≤ s.free + 1) : propagate clauses s = .ok b t := by
  simp [propagate, h.passes_eq hk]

/-- **Propagation ends**, with a refuted clause or with no conclusion left to draw. -/
theorem propagate_spec (hs : s.Ready clauses) :
    ∃ b t, propagate clauses s = .ok b t ∧ Draws clauses s t ∧
      if b then Quiet clauses t.assignment else Refutes clauses t.assignment := by
  obtain ⟨k, b, t, hsweeps, hk, h⟩ := exists_sweeps hs
  exact ⟨b, t, hsweeps.propagate_eq hk, h⟩

end Search

end Polarity
