import Mathlib.Data.List.Nodup
import Polarity.Proofs.Assignment.Updates
import Polarity.Proofs.Search.Fixpoint

/-!
# Unit propagation is confluent

**Theorem (`propagate_confluent`).** For two formulas that differ in the order of their clauses, in
repeated clauses, and in the order of literals within clauses, propagation from the same values has
the same answer. If it meets no conflict, it ends with the same values for both, after as many
conclusions, and puts the same entries on the trail, in some order.

The order of the clauses decides in which order conclusions come up, and when a clause with only
false literals is met. So two propagations are not compared step by step. One is compared with the
*end* of the other, at which the clauses are at rest (`Rests`):

* what the one makes true is true at the end of the other (`Draws.within`), since at rest a literal
  that has only false ones beside it is true;
* so it meets no conflict either (`Draws.settles`), and each of the two ends is within the other.
-/

namespace Polarity

variable {a b : Assignment} {c d : Clause} {clauses : List Clause} {l : Literal}

/-! ## The same clauses in another order -/

/-- The formulas have the same variables and the same clauses, but for the order of the clauses,
clauses that are repeated, and the order of literals in a clause. -/
structure Formula.Reordered (f g : Formula) : Prop where
  vars : g.vars = f.vars
  forth : ∀ c ∈ f.clauses, ∃ d ∈ g.clauses, c.Perm d
  back : ∀ d ∈ g.clauses, ∃ c ∈ f.clauses, d.Perm c

theorem Formula.Reordered.symm {f g : Formula} (h : f.Reordered g) : g.Reordered f :=
  ⟨h.vars.symm, h.back, h.forth⟩

theorem Formula.Reordered.covers {f g : Formula} (h : f.Reordered g) (hf : f.WellFormed) :
    Search.Covers f.vars g.clauses := by
  intro d hd l hl
  obtain ⟨c, hc, hdc⟩ := h.back d hd
  exact hf.var_lt c hc l (hdc.subset hl)

theorem Clause.Refuted.perm (h : c.Refuted a) (hcd : c.Perm d) : d.Refuted a :=
  fun l hl => h l (hcd.symm.subset hl)

theorem Clause.Unit.perm (h : c.Unit a) (hcd : c.Perm d) : d.Unit a :=
  ⟨fun l hl => h.1 l (hcd.symm.subset hl), hcd.countP_eq _ ▸ h.2⟩

/-! ## Assignments within assignments -/

/-- What is true under the one assignment is true under the other. -/
def Assignment.Within (a b : Assignment) : Prop :=
  ∀ l, a.value l = .ok .positive → b.value l = .ok .positive

namespace Assignment.Within

theorem value_negative (h : a.Within b) (ha : a.Consistent) (hb : b.Consistent)
    (hl : a.value l = .ok .negative) : b.value l = .ok .negative := by
  have hneg := hb.opposite _ _ (h _ (ha.opposite _ _ hl))
  rwa [Literal.neg_neg] at hneg

theorem refuted (h : a.Within b) (ha : a.Consistent) (hb : b.Consistent) (hc : c.Refuted a) :
    c.Refuted b :=
  fun l hl => h.value_negative ha hb (hc l hl)

theorem value_eq (hab : a.Within b) (hba : b.Within a) (ha : a.Consistent) (hb : b.Consistent)
    {p : Phase} (hvars : a.vars = b.vars) (hp : a.value l = .ok p) : b.value l = .ok p := by
  obtain ⟨q, hq⟩ := hb.exists_value (hvars ▸ ha.var_lt hp)
  cases p with
  | positive => exact hab l hp
  | negative => exact hab.value_negative ha hb hp
  | unset =>
    cases q with
    | positive => simp [hba l hq] at hp
    | negative => simp [hba.value_negative hb ha hq] at hp
    | unset => exact hq

/-- Assignments that are within each other are the same. -/
theorem antisymm (hab : a.Within b) (hba : b.Within a) (ha : a.Consistent) (hb : b.Consistent)
    (hvars : a.vars = b.vars) : a = b := by
  refine ha.ext hb hvars fun l => ?_
  by_cases hl : l.var.index < a.vars
  · obtain ⟨p, hp⟩ := ha.exists_value hl
    rw [hp, hab.value_eq hba ha hb hvars hp]
  · have hnone (e : Assignment) (he : e.Consistent) (hevars : e.vars = a.vars) :
        e.value l = .error (.fault .outOfRange) := by
      have hslot : e.slots[l.slot]? = none :=
        Array.getElem?_eq_none (Nat.not_lt.1 (he.even ▸ hevars ▸ mt Literal.slot_lt.1 hl))
      simp [value, entry, hslot]
    rw [hnone a ha rfl, hnone b hb hvars.symm]

end Assignment.Within

namespace Search

variable {s t : Search} {answer : Bool}

/-! ## One propagation and the end of another -/

/-- No clause has only false literals, and none allows a conclusion. -/
def Rests (clauses : List Clause) (a : Assignment) : Prop :=
  ∀ c ∈ clauses, ¬ c.Refuted a ∧ ¬ c.Unit a

theorem Rests.reordered {f g : Formula} (h : Rests f.clauses a) (hfg : f.Reordered g) :
    Rests g.clauses a := by
  intro d hd
  obtain ⟨c, hc, hdc⟩ := hfg.back d hd
  exact ⟨fun hd => (h c hc).1 (hd.perm hdc), fun hd => (h c hc).2 (hd.perm hdc)⟩

/-- At rest a literal that has only false ones beside it is true: the clause is not refuted, so the
literal is not false, and the clause allows no conclusion, so it is not free. -/
theorem Rests.value_positive {front back : Clause} (h : Rests clauses b) (hb : b.Consistent)
    (hc : front ++ l :: back ∈ clauses) (hl : l.var.index < b.vars)
    (hfalse : ∀ k ∈ front ++ back, b.value k = .ok .negative) : b.value l = .ok .positive := by
  obtain ⟨hnot, hnone⟩ := h _ hc
  obtain ⟨p, hp⟩ := hb.exists_value hl
  cases p with
  | positive => exact hp
  | negative =>
    have hrefuted : Clause.Refuted b (l :: (front ++ back)) := List.forall_mem_cons.2 ⟨hp, hfalse⟩
    exact absurd (hrefuted.perm List.perm_middle.symm) hnot
  | unset =>
    have hnofree : (front ++ back).countP (fun k => b.value k = .ok .unset) = 0 :=
      List.countP_eq_zero.2 fun k hk => by simp [hfalse k hk]
    have hunit : Clause.Unit b (l :: (front ++ back)) := by
      refine ⟨List.forall_mem_cons.2 ⟨by simp [hp], fun k hk => by simp [hfalse k hk]⟩, ?_⟩
      rw [List.countP_cons, hnofree, if_pos (by simpa using hp)]
    exact absurd (hunit.perm List.perm_middle.symm) hnone

/-- **A conclusion is true wherever the clauses are at rest** and all is true that was true before
it. -/
theorem Draw.within (h : Draw clauses s t) (hs : s.Ready clauses) (hb : b.Consistent)
    (hvars : s.assignment.vars = b.vars) (hrests : Rests clauses b)
    (hw : s.assignment.Within b) : t.assignment.Within b := by
  cases h with
  | @intro c l hc hunit =>
    have hfree := hs.value_unset_of_unit hc hunit
    obtain ⟨front, back, rfl, -, hfalse⟩ :=
      Clause.describes_of_status hs.consistent (hs.covers c hc) hunit
    have htrue : b.value l = .ok .positive :=
      hrests.value_positive hb hc (hvars ▸ hs.consistent.var_lt hfree) fun k hk =>
        hw.value_negative hs.consistent hb (hfalse k hk)
    intro k hk
    rcases (Assignment.value_put_eq_positive_iff hs.consistent hfree).1 hk with rfl | hk
    · exact htrue
    · exact hw k hk

theorem Draws.vars (h : Draws clauses s t) (hs : s.Ready clauses) :
    t.assignment.vars = s.assignment.vars := by
  obtain ⟨-, new, -, hafter, -⟩ := h.adds hs
  rw [hafter, Assignment.vars_after]

/-- **Propagation stays within every state at rest** that it starts within. -/
theorem Draws.within (h : Draws clauses s t) (hs : s.Ready clauses) (hb : b.Consistent)
    (hvars : s.assignment.vars = b.vars) (hrests : Rests clauses b)
    (hw : s.assignment.Within b) : t.assignment.Within b := by
  induction h with
  | refl => exact hw
  | tail hdraws hdraw ih =>
    have hvars' := (Draws.vars hdraws hs).trans hvars
    exact hdraw.within (hs.draws hdraws) hb hvars' hrests ih

/-- Propagation keeps what is true. -/
theorem Draws.grows (h : Draws clauses s t) (hs : s.Ready clauses) :
    s.assignment.Within t.assignment := by
  obtain ⟨-, new, -, hafter, hfits⟩ := h.adds hs
  intro l hl
  rw [hafter]
  exact (hfits.value_eq_positive_iff hs.consistent).2 (Or.inl hl)

/-- If propagation of the one formula ends without a conflict, that of the other meets none either
and makes nothing else true. -/
theorem Draws.settles {f g : Formula} {s' t' : Search} (hfg : f.Reordered g)
    (hs : s.Ready f.clauses) (ht : t.Ready g.clauses) (hst : t.assignment = s.assignment)
    (hdraws : Draws f.clauses s s') (hquiet : Quiet f.clauses s'.assignment)
    (hdraws' : Draws g.clauses t t')
    (hend : if answer then Quiet g.clauses t'.assignment else Refutes g.clauses t'.assignment) :
    answer = true ∧ t'.assignment.Within s'.assignment := by
  have hs' := hs.draws hdraws
  have ht' := ht.draws hdraws'
  have hrests : Rests g.clauses s'.assignment :=
    Rests.reordered (fun _ => hquiet.not_unit hs'.consistent hs'.covers) hfg
  have hvars : t.assignment.vars = s'.assignment.vars := by rw [hst, hdraws.vars hs]
  have hwithin := hdraws'.within ht hs'.consistent hvars hrests (hst ▸ hdraws.grows hs)
  cases answer with
  | true => exact ⟨rfl, hwithin⟩
  | false =>
    obtain ⟨c, hc, hrefuted⟩ := Refutes.exists_refuted hend ht'.consistent ht'.covers
    have hthere := hwithin.refuted ht'.consistent hs'.consistent hrefuted
    exact absurd hthere (hrests c hc).1

/-! ## What is put on the trail -/

/-- The entries that propagation adds are told by the values before it and after it. -/
theorem Draws.mem_new_iff (h : Draws clauses s t) (hs : s.Ready clauses) :
    ∃ new, t.trail = new ++ s.trail ∧ new.Nodup ∧
      t.statistics.propagations = s.statistics.propagations + UInt64.ofNat new.length ∧
      ∀ e, e ∈ new ↔ e.reason = .implied ∧ s.assignment.value e.lit = .ok .unset ∧
        t.assignment.value e.lit = .ok .positive := by
  obtain ⟨-, new, htrail, hafter, hfits⟩ := h.adds hs
  obtain ⟨counted, htrail', himplied, hcount⟩ := h.kept.implied
  obtain rfl : new = counted := List.append_cancel_right (htrail.symm.trans htrail')
  refine ⟨new, htrail, List.Nodup.of_map _ (hfits.nodup hs.consistent), hcount, fun e => ?_⟩
  rw [hafter]
  constructor
  · intro he
    exact ⟨himplied e he, hfits.free hs.consistent he, hfits.value_of_mem hs.consistent he⟩
  · rintro ⟨hreason, hfree, htrue⟩
    rcases (hfits.value_eq_positive_iff hs.consistent).1 htrue with hold | ⟨e', he', hlit⟩
    · simp [hfree] at hold
    · obtain rfl : e' = e := by
        obtain ⟨l, r⟩ := e
        obtain ⟨l', r'⟩ := e'
        exact congrArg₂ Entry.mk hlit ((himplied _ he').trans hreason.symm)
      exact he'

/-! ## Two propagations -/

/-- Two propagations, from `s` to `s'` and from `t` to `t'`, have come to the same end: they end
with the same values, have drawn as many conclusions, and have added the same entries in some
order. -/
structure Agree (s t s' t' : Search) : Prop where
  assignment : t'.assignment = s'.assignment
  added : ∃ new new', s'.trail = new ++ s.trail ∧ t'.trail = new' ++ t.trail ∧ new'.Perm new ∧
    s'.statistics.propagations = s.statistics.propagations + UInt64.ofNat new.length ∧
    t'.statistics.propagations = t.statistics.propagations + UInt64.ofNat new.length

/-- **Unit propagation is confluent**: how clauses and their literals are ordered and how often a
clause is repeated makes no difference to its answer, nor to what it ends with if there is no
conflict. -/
theorem propagate_confluent {f g : Formula} {s t : Search} (hf : f.WellFormed)
    (hfg : f.Reordered g) (ha : s.assignment.Consistent) (hvars : s.assignment.vars = f.vars)
    (hst : t.assignment = s.assignment) :
    ∃ answer s' t', propagate f.clauses s = .ok answer s' ∧
      propagate g.clauses t = .ok answer t' ∧ (answer = true → Agree s t s' t') := by
  have hs : s.Ready f.clauses := ⟨ha, hvars ▸ hf.var_lt⟩
  have ht : t.Ready g.clauses := ⟨hst ▸ ha, by rw [hst, hvars]; exact hfg.covers hf⟩
  obtain ⟨answer, s', hrun, hdraws, hend⟩ := propagate_spec hs
  obtain ⟨answer', t', hrun', hdraws', hend'⟩ := propagate_spec ht
  have hforth (h : answer = true) : answer' = true ∧ t'.assignment.Within s'.assignment :=
    hdraws.settles hfg hs ht hst (by rwa [if_pos h] at hend) hdraws' hend'
  have hback (h : answer' = true) : answer = true ∧ s'.assignment.Within t'.assignment :=
    hdraws'.settles hfg.symm ht hs hst.symm (by rwa [if_pos h] at hend') hdraws hend
  obtain rfl : answer' = answer :=
    Bool.eq_iff_iff.2 ⟨fun h => (hback h).1, fun h => (hforth h).1⟩
  refine ⟨answer', s', t', hrun, hrun', fun h => ?_⟩
  have heq : t'.assignment = s'.assignment := by
    refine (hforth h).2.antisymm (hback h).2 (ht.draws hdraws').consistent
      (hs.draws hdraws).consistent ?_
    rw [hdraws'.vars ht, hdraws.vars hs, hst]
  obtain ⟨new, htrail, hnodup, hcount, hnew⟩ := hdraws.mem_new_iff hs
  obtain ⟨new', htrail', hnodup', hcount', hnew'⟩ := hdraws'.mem_new_iff ht
  have hperm : new'.Perm new := (List.perm_ext_iff_of_nodup hnodup' hnodup).2 fun e => by
    rw [hnew, hnew', hst, heq]
  exact ⟨heq, new, new', htrail, htrail', hperm, hcount, hperm.length_eq ▸ hcount'⟩

/-- The clauses of `twice` from the last to the first, one of them repeated, with their literals in
another order. -/
def twiceReordered : Formula where
  vars := 3
  clauses := [[⟨⟨0⟩, true⟩], [⟨⟨0⟩, true⟩], [⟨⟨2⟩, true⟩, ⟨⟨1⟩, false⟩, ⟨⟨2⟩, true⟩],
    [⟨⟨1⟩, true⟩, ⟨⟨0⟩, false⟩]]

/-- Two passes draw the conclusions from the one formula, and one pass draws them from the other. -/
theorem propagate_confluent_twice :
    twice.Reordered twiceReordered ∧
      ∃ s' t', propagate twice.clauses (start (.blank {} 3)) = .ok true s' ∧
        propagate twiceReordered.clauses (start (.blank {} 3)) = .ok true t' ∧
        Agree (start (.blank {} 3)) (start (.blank {} 3)) s' t' := by
  have hf : twice.WellFormed := ⟨by decide, by decide⟩
  have hfg : twice.Reordered twiceReordered := ⟨rfl, by decide, by decide⟩
  have hblank : (start (.blank {} 3)).assignment.Consistent := .blank 3
  obtain ⟨answer, s', t', hrun, hrun', hagree⟩ := propagate_confluent hf hfg hblank rfl rfl
  have hvalue : propagate twice.clauses (start (.blank {} 3)) =
      .ok true (((start (.blank {} 3)).drawn ⟨⟨0⟩, true⟩).drawn ⟨⟨1⟩, true⟩) := rfl
  obtain ⟨rfl, -⟩ : true = answer ∧ _ = s' := by simpa [hvalue] using hrun
  exact ⟨hfg, s', t', hrun, hrun', hagree rfl⟩

end Search

end Polarity
