import Polarity.Proofs.Prediction.Generation

/-!
# What each entry of a generated hint holds

A list of predictions can be anything: predictions for one variable can stand in it several times,
predictions can lack a variable or a phase, and those with a variable but no phase still make the
hint longer. What is generated is said here in terms of the two fields of a prediction only.

**Theorem (`entry_of_last_setter`).** The hint has entries up to the largest variable of the whole
list. An entry holds what the last kept prediction that sets its variable sets it to, and is unset
if there is no such prediction. Kept predictions that set nothing are skipped.

The entries were found as the last proposal for each variable (`MadeOf`). A prediction proposes a
phase just in case it sets the variable (`proposal?_eq_some_ofBool_iff`), so the last proposal is
that of the last prediction that sets the variable (`getLast?_proposals`).
-/

namespace Polarity

variable {p : Prediction} {ps used : List Prediction} {v largest : Nat} {b : Bool}

namespace Prediction

/-! ## Predictions that set a variable -/

/-- The number that is assigned. -/
def assignment? (p : Prediction) : Option Nat := (p.value.field? "assignment").bind Json.toNat?

/-- The prediction sets a variable: it names the variable and assigns it 0 or 1. -/
def Sets (p : Prediction) (v : Nat) (b : Bool) : Prop :=
  p.index? = some v ∧ p.assignment? = some b.toNat

/-- The prediction lacks a variable, or does not assign it 0 or 1. -/
def SetsNothing (p : Prediction) : Prop :=
  p.index? = none ∨ p.assignment? ≠ some 0 ∧ p.assignment? ≠ some 1

instance : DecidablePred SetsNothing := fun _ => inferInstanceAs (Decidable (_ ∨ _))

/-- The last of the predictions that set the variable sets it to `b`. -/
def LastSets (used : List Prediction) (v : Nat) (b : Bool) : Prop :=
  ∃ before p after, used = before ++ p :: after ∧ p.Sets v b ∧ ∀ r ∈ after, ∀ c, ¬ r.Sets v c

/-- The largest variable of the list. -/
structure Largest (ps : List Prediction) (largest : Nat) : Prop where
  named : ∃ p ∈ ps, p.index? = some largest
  le : ∀ p ∈ ps, ∀ i ∈ p.index?, i ≤ largest

theorem Largest.max?_eq (h : Largest ps largest) : (ps.filterMap index?).max? = some largest := by
  simp only [List.max?_eq_some_iff, List.mem_filterMap]
  exact ⟨h.named, fun i ⟨p, hp, hi⟩ => h.le p hp i hi⟩

theorem Largest.lt_of_mem_take {count i : Nat} (h : Largest ps largest) (hp : p ∈ ps.take count)
    (hi : i ∈ p.index?) : i < largest + 1 :=
  Nat.lt_succ_of_le (h.le p (List.mem_of_mem_take hp) i hi)

theorem phase?_eq_some_ofBool_iff : p.phase? = some (.ofBool b) ↔ p.assignment? = some b.toNat := by
  unfold phase? assignment?
  cases b <;> split <;> simp_all [Phase.ofBool]

theorem phase?_ne_some_unset : p.phase? ≠ some .unset := by
  unfold phase?
  split <;> simp

theorem phase?_eq_none_iff :
    p.phase? = none ↔ p.assignment? ≠ some 0 ∧ p.assignment? ≠ some 1 := by
  unfold phase? assignment?
  split <;> simp_all

theorem proposal?_eq_some_ofBool_iff : p.proposal? v = some (.ofBool b) ↔ p.Sets v b := by
  simp [proposal?, Sets, phase?_eq_some_ofBool_iff]

theorem proposal?_ne_some_unset : p.proposal? v ≠ some .unset := by
  simp [proposal?, phase?_ne_some_unset]

theorem proposal?_eq_none_iff : p.proposal? v = none ↔ ∀ b, ¬ p.Sets v b := by
  simp only [← proposal?_eq_some_ofBool_iff, Bool.forall_bool, Phase.ofBool]
  cases hp : p.proposal? v with
  | none => simp
  | some q =>
    cases q with
    | unset => exact absurd hp proposal?_ne_some_unset
    | negative => simp
    | positive => simp

theorem isUsable_eq_false_iff : p.isUsable = false ↔ p.SetsNothing := by
  rw [SetsNothing, ← phase?_eq_none_iff, isUsable]
  cases p.index? <;> cases p.phase? <;> simp

/-- **The last proposal is that of the last prediction that sets the variable.** -/
theorem getLast?_proposals :
    (used.filterMap (proposal? v)).getLast? = some (.ofBool b) ↔ LastSets used v b := by
  simp only [getLast?_filterMap_eq_some_iff, proposal?_eq_some_ofBool_iff, proposal?_eq_none_iff,
    LastSets]

theorem getLast?_proposals_ne_unset : (used.filterMap (proposal? v)).getLast? ≠ some .unset := by
  intro h
  obtain ⟨p, -, hp⟩ := List.mem_filterMap.1 (List.mem_of_getLast? h)
  exact proposal?_ne_some_unset hp

theorem getLast?_proposals_eq_none :
    (used.filterMap (proposal? v)).getLast? = none ↔ ∀ p ∈ used, ∀ b, ¬ p.Sets v b := by
  simp only [List.getLast?_eq_none_iff, List.filterMap_eq_nil_iff, proposal?_eq_none_iff]

theorem LastSets.exists_sets (h : LastSets used v b) : ∃ p ∈ used, p.Sets v b := by
  obtain ⟨before, p, after, rfl, hp, -⟩ := h
  exact ⟨p, List.mem_append_right _ List.mem_cons_self, hp⟩

end Prediction

namespace Generated

open Prediction

variable {g : Generated} {vars : Nat} {fraction : Option Double}

/-! ## Entries -/

/-- Each entry holds what the last of the predictions that set its variable sets it to. The
predictions that set nothing are skipped. -/
structure FilledBy (used : List Prediction) (g : Generated) : Prop where
  entry : ∀ v b, g.phases[v]? = some (.ofBool b) ↔ LastSets used v b
  unset : ∀ v < g.size, g.phases[v]? = some .unset ↔ ∀ p ∈ used, ∀ b, ¬ p.Sets v b
  skipped : g.skipped = used.countP fun p => p.SetsNothing

/-- Using the predictions one after the other, each of them finds the entry that it sets. -/
def FindsEntries (used : List Prediction) (g : Generated) : Prop :=
  ∀ before p after, used = before ++ p :: after →
    ∀ v b, p.Sets v b → v < (before.foldl add g).size

theorem MadeOf.filledBy (hg : MadeOf used vars g)
    (hvars : ∀ p ∈ used, ∀ i ∈ p.index?, i < vars) : g.FilledBy used where
  entry v b := by
    rcases Nat.lt_or_ge v vars with hv | hv
    · have hset : Phase.unset ≠ .ofBool b := by cases b <;> nofun
      rw [hg.phases v hv, Option.some_inj, Option.getD_eq_iff, getLast?_proposals]
      simp [hset]
    · have hout : g.phases[v]? = none := Array.getElem?_eq_none (hg.size.trans_le hv)
      refine iff_of_false (by simp [hout]) fun hlast => ?_
      obtain ⟨p, hp, hsets⟩ := hlast.exists_sets
      exact absurd (hvars p hp v hsets.1) (Nat.not_lt.2 hv)
  unset v hv := by
    rw [hg.phases v (hg.size ▸ hv), Option.some_inj, Option.getD_eq_iff,
      getLast?_proposals_eq_none, and_iff_left rfl, or_iff_right getLast?_proposals_ne_unset]
  skipped := by
    rw [hg.skipped]
    refine List.countP_congr fun p _ => ?_
    simp [isUsable_eq_false_iff]

theorem findsEntries_blank (hvars : ∀ p ∈ used, ∀ i ∈ p.index?, i < vars) :
    FindsEntries used (blank vars) := by
  rintro before p after rfl v b hsets
  rw [size, size_foldl_add, size_blank]
  exact hvars p (List.mem_append_right _ List.mem_cons_self) v hsets.1

/-! ## The hint that is generated -/

/-- With a fraction that can be used there is a hint, and the predictions that are kept fill it. -/
theorem ofPredictions_filledBy (hlargest : Largest ps largest)
    (hroom : Memory.allow (largest + 1) = .ok (largest + 1))
    (haccepted : ∀ x ∈ fraction, Accepted x) :
    let used := ps.take (keptCount ps.length (largest + 1) fraction)
    let g := used.foldl add (blank (largest + 1))
    ofPredictions ps fraction = .ok g ∧ g.size = largest + 1 ∧ g.FilledBy used := by
  intro used g
  have hmade : MadeOf used (largest + 1) g := madeOf_foldl_blank used _
  have hrun : ofPredictions ps fraction = .ok g := ofPredictions_eq_foldl hlargest.max?_eq
    (Memory.lt_limit_of_allow hroom) (kept_eq_ok haccepted)
  exact ⟨hrun, hmade.size, hmade.filledBy fun p hp i hi => hlargest.lt_of_mem_take hp hi⟩

/-- **The hint that is generated.** Without a variable it is an error that there is none. Otherwise
a fraction that is not a number, or less than zero, is an error; and with any other fraction, or
none, there is a hint. It has entries up to the largest variable of all predictions, and its entries
and its count of skipped predictions come from the predictions that are kept. -/
theorem entry_of_last_setter (ps : List Prediction) (fraction : Option Double) :
    ((∀ p ∈ ps, p.index? = none) → ofPredictions ps fraction = .error .noIndex) ∧
    ∀ largest, Largest ps largest → Memory.allow (largest + 1) = .ok (largest + 1) →
      (∀ bad ∈ fraction, ¬ Accepted bad →
        ofPredictions ps fraction = .error (.invalidFraction bad)) ∧
      ((∀ x ∈ fraction, Accepted x) →
        let used := ps.take (keptCount ps.length (largest + 1) fraction)
        let g := used.foldl add (blank (largest + 1))
        ofPredictions ps fraction = .ok g ∧ g.size = largest + 1 ∧ g.FilledBy used ∧
          FindsEntries used (blank (largest + 1))) := by
  refine ⟨fun hnone => ?_, fun largest hlargest hroom => ⟨?_, fun haccepted => ?_⟩⟩
  · exact ofPredictions_eq_noIndex (List.max?_eq_none_iff.2 (List.filterMap_eq_nil_iff.2 hnone))
  · rintro bad rfl hbad
    exact ofPredictions_eq_invalidFraction hlargest.max?_eq (Memory.lt_limit_of_allow hroom)
      (kept_eq_error hbad)
  · obtain ⟨hrun, hsize, hfilled⟩ := ofPredictions_filledBy hlargest hroom haccepted
    exact ⟨hrun, hsize, hfilled,
      findsEntries_blank fun p hp i hi => hlargest.lt_of_mem_take hp hi⟩

/-- Five predictions: two for one variable, one without a variable, one that assigns neither 0 nor 1
but has the largest variable, and one more. -/
def ranked : List Prediction :=
  [⟨1, .object [("index", .count 1), ("assignment", .count 0)]⟩,
    ⟨2, .object [("index", .count 1), ("assignment", .count 1)]⟩,
    ⟨3, .object [("assignment", .count 1)]⟩,
    ⟨4, .object [("index", .count 4), ("assignment", .count 2)]⟩,
    ⟨5, .object [("index", .count 0), ("assignment", .count 0)]⟩]

/-- One half. -/
def half : Double := .ofBits 0x3FE0000000000000

theorem largest_ranked : Largest ranked 4 where
  named := by decide
  le := by decide

/-- Half of five variables keeps three predictions. The second of them counts for its variable, the
third is skipped, and the hint ends with the variable of the fourth. -/
theorem entry_of_last_setter_ranked :
    Largest ranked 4 ∧ Memory.allow 5 = .ok 5 ∧ Accepted half ∧
      ofPredictions ranked (some half) =
        .ok ⟨#[.unset, .positive, .unset, .unset, .unset], 1⟩ ∧
      FilledBy (ranked.take 3) ⟨#[.unset, .positive, .unset, .unset, .unset], 1⟩ ∧
      FindsEntries (ranked.take 3) (blank 5) := by
  have haccepted : Accepted half := by decide +kernel
  have hkept : keptCount ranked.length 5 (some half) = 3 := by decide +kernel
  obtain ⟨hrun, -, hfilled, hfinds⟩ := ((entry_of_last_setter ranked (some half)).2 4
    largest_ranked rfl).2 haccepted.of_mem
  rw [hkept] at hrun hfilled hfinds
  exact ⟨largest_ranked, rfl, haccepted, hrun, hfilled, hfinds⟩

end Generated

end Polarity
