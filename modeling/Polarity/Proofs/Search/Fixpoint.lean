import Polarity.Proofs.Search.Rounds

/-!
# The fixpoint of unit propagation

**Theorem (`propagate_reaches_fixpoint`).** Propagation ends after at most one more pass than there
are free variables. It makes only literals true that were free and hold in every valuation that
satisfies the formula and extends the values from before. If it reports a conflict, a clause has only
false literals, and otherwise no clause has, and none allows a unit conclusion.

What is read off the last pass is the status of each clause, and the status of a clause counts its
free literals by occurrence: a free literal that stands in a clause twice is not the only one left
(`Describes.not_unit`).

Nothing is asked of the search but that its values are consistent and belong to the variables of the
formula. Its trail and its phases may be any.
-/

namespace Polarity

variable {a : Assignment} {c : Clause} {clauses : List Clause}

/-! ## Clauses under an assignment -/

/-- All literals of the clause are false. -/
def Clause.Refuted (a : Assignment) (c : Clause) : Prop := ∀ l ∈ c, a.value l = .ok .negative

/-- The clause has no true literal, and a free literal occurs in it once and no other one does. -/
def Clause.Unit (a : Assignment) (c : Clause) : Prop :=
  (∀ l ∈ c, a.value l ≠ .ok .positive) ∧ c.countP (fun l => a.value l = .ok .unset) = 1

/-- A true literal, or two free occurrences and no true one: no conclusion can be drawn. -/
theorem ClauseStatus.Describes.not_unit {r : ClauseStatus} (h : r.Describes a c)
    (hr : r = .satisfied ∨ r = .undecided) : ¬ c.Refuted a ∧ ¬ c.Unit a := by
  rcases hr with rfl | rfl
  · obtain ⟨l, hl, htrue⟩ := h
    exact ⟨fun hall => by simp [hall l hl] at htrue, fun hunit => hunit.1 l hl htrue⟩
  · obtain ⟨-, k, l, hkl, hk, hl⟩ := h
    have htwo : [k, l].countP (fun m => a.value m = .ok .unset) = 2 := by simp [hk, hl]
    have hle := hkl.countP_le (p := fun m => decide (a.value m = .ok .unset))
    refine ⟨fun hall => ?_, fun hunit => ?_⟩
    · simp [hall k (hkl.subset List.mem_cons_self)] at hk
    · have hone := hunit.2
      omega

namespace Search

variable {s t : Search} {b : Bool}

theorem Quiet.not_unit (hq : Quiet clauses a) (ha : a.Consistent) (hcl : Covers a.vars clauses)
    (hc : c ∈ clauses) : ¬ c.Refuted a ∧ ¬ c.Unit a := by
  rcases hq c hc with h | h
  · exact (Clause.describes_of_status ha (hcl c hc) h).not_unit (Or.inl rfl)
  · exact (Clause.describes_of_status ha (hcl c hc) h).not_unit (Or.inr rfl)

theorem Refutes.exists_refuted (hr : Refutes clauses a) (ha : a.Consistent)
    (hcl : Covers a.vars clauses) : ∃ c ∈ clauses, c.Refuted a := by
  obtain ⟨c, hc, hstatus⟩ := hr
  exact ⟨c, hc, Clause.describes_of_status ha (hcl c hc) hstatus⟩

/-- The free variables are those that are neither true nor false. -/
theorem free_eq_count (ha : s.assignment.Consistent) :
    s.free = s.assignment.varValues.count .unset := by
  have hsplit := List.length_eq_countP_add_countP Phase.isSet (l := s.assignment.varValues)
  have hunset : s.assignment.varValues.count .unset =
      s.assignment.varValues.countP fun p => ¬ p.isSet = true := by
    refine List.countP_congr fun p _ => ?_
    cases p <;> simp [Phase.isSet]
  rw [Assignment.length_varValues] at hsplit
  rw [free, ha.counted, hunset]
  omega

/-! ## Propagation -/

/-- What propagation has done when it ends with this answer: it has put the entries `new` on the
trail, and nothing but the values, the trail and one counter has changed. -/
structure Propagated (f : Formula) (new : List Entry) (s t : Search) (b : Bool) : Prop where
  trail : t.trail = new ++ s.trail
  assignment : t.assignment = s.assignment.after new
  free : ∀ e ∈ new, s.assignment.value e.lit = .ok .unset
  nodup : (new.map (·.lit.var)).Nodup
  counted : t.statistics.propagations = s.statistics.propagations + UInt64.ofNat new.length
  kept : s.Kept t
  sound : ∀ μ, f.SatisfiedBy μ → s.assignment.ExtendedBy μ → t.assignment.ExtendedBy μ
  conflict : b = false → ∃ c ∈ f.clauses, c.Refuted t.assignment
  fixpoint : b = true → ∀ c ∈ f.clauses, ¬ c.Refuted t.assignment ∧ ¬ c.Unit t.assignment

theorem Draws.propagated {f : Formula} (h : Draws f.clauses s t) (hs : s.Ready f.clauses)
    (hend : if b then Quiet f.clauses t.assignment else Refutes f.clauses t.assignment) :
    ∃ new, Propagated f new s t b := by
  obtain ⟨ht, new, htrail, hafter, hfits⟩ := h.adds hs
  obtain ⟨counted, htrail', -, hcount⟩ := h.kept.implied
  obtain rfl : new = counted := List.append_cancel_right (htrail.symm.trans htrail')
  refine ⟨new, htrail, hafter, fun e => hfits.free hs.consistent, hfits.nodup hs.consistent, hcount,
    h.kept, fun μ => h.extendedBy hs, ?_, ?_⟩
  · rintro rfl
    exact Refutes.exists_refuted hend ht.consistent ht.covers
  · rintro rfl c hc
    exact Quiet.not_unit hend ht.consistent ht.covers hc

/-- **Unit propagation is sound and reaches its fixpoint**, within as many passes as there are free
variables and one more. -/
theorem propagate_reaches_fixpoint {f : Formula} {s : Search} (hf : Covers f.vars f.clauses)
    (ha : s.assignment.Consistent) (hvars : s.assignment.vars = f.vars) :
    ∃ passes b t new, propagate f.clauses s = .ok b t ∧ Sweeps f.clauses passes s b t ∧
      passes ≤ s.assignment.varValues.count .unset + 1 ∧ Propagated f new s t b := by
  have hs : s.Ready f.clauses := ⟨ha, hvars ▸ hf⟩
  obtain ⟨passes, b, t, hsweeps, hpasses, hdraws, hend⟩ := exists_sweeps hs
  obtain ⟨new, hnew⟩ := hdraws.propagated hs hend
  exact ⟨passes, b, t, new, hsweeps.propagate_eq hpasses, hsweeps, free_eq_count ha ▸ hpasses, hnew⟩

/-- A fact, an implication, and a clause in which a literal stands twice. -/
def twice : Formula where
  vars := 3
  clauses := [[⟨⟨0⟩, false⟩, ⟨⟨1⟩, true⟩], [⟨⟨1⟩, false⟩, ⟨⟨2⟩, true⟩, ⟨⟨2⟩, true⟩], [⟨⟨0⟩, true⟩]]

/-- The first clause comes before the fact and is drawn upon in the second pass, and the literal that
stands twice stays free. -/
theorem propagate_reaches_fixpoint_twice :
    ∃ passes t, propagate twice.clauses (start (.blank {} 3)) = .ok true t ∧
      Sweeps twice.clauses passes (start (.blank {} 3)) true t ∧ passes ≤ 4 ∧
      t.trail = [⟨⟨⟨1⟩, true⟩, .implied⟩, ⟨⟨⟨0⟩, true⟩, .implied⟩] ∧
      ∀ c ∈ twice.clauses, ¬ c.Refuted t.assignment ∧ ¬ c.Unit t.assignment := by
  have hcovers : ∀ c ∈ twice.clauses, ∀ l ∈ c, l.var.index < twice.vars := by decide
  have hblank : (start (.blank {} 3)).assignment.Consistent := .blank 3
  obtain ⟨passes, b, t, new, hrun, hsweeps, hpasses, hnew⟩ :=
    propagate_reaches_fixpoint hcovers hblank rfl
  have hvalue : propagate twice.clauses (start (.blank {} 3)) =
      .ok true (((start (.blank {} 3)).drawn ⟨⟨0⟩, true⟩).drawn ⟨⟨1⟩, true⟩) := rfl
  obtain ⟨rfl, rfl⟩ : true = b ∧ _ = t := by simpa [hvalue] using hrun
  exact ⟨passes, _, hrun, hsweeps, hpasses, rfl, hnew.fixpoint rfl⟩

end Search

end Polarity
