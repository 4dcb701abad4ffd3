import Polarity.Proofs.Prediction.Entries

/-!
# Keeping more of the predictions

The predictions that a fraction keeps stand at the front of the list, so of two fractions the one
that keeps more keeps all that the other one does, and then some.

**Theorem (`larger_fraction_extends`).** Keeping more predictions makes no hint of another size. No
entry is lost by it, and if no two predictions set the same variable, none is changed. As many
predictions are skipped at least.

The entries of both hints are known from the predictions that are kept (`FilledBy`), so hints are
compared by comparing these. A prediction that is kept in addition changes an entry only where an
earlier one has set it (`LastSets.append`).
-/

namespace Polarity

variable {p : Prediction} {ps few many more : List Prediction} {v largest : Nat} {b : Bool}

namespace Prediction

/-- No two of the predictions that set a variable name the same one. -/
def Unambiguous (ps : List Prediction) : Prop :=
  ps.Pairwise fun p r => ¬ p.SetsNothing → ¬ r.SetsNothing → p.index? ≠ r.index?

instance : DecidablePred Unambiguous := fun ps => inferInstanceAs (Decidable (ps.Pairwise _))

theorem Sets.not_setsNothing (h : p.Sets v b) : ¬ p.SetsNothing := by
  obtain ⟨hindex, hassignment⟩ := h
  cases b <;> simp [SetsNothing, hindex, hassignment]

theorem exists_lastSets_iff : (∃ b, LastSets ps v b) ↔ ∃ p ∈ ps, ∃ b, p.Sets v b := by
  constructor
  · rintro ⟨b, hlast⟩
    obtain ⟨p, hp, hsets⟩ := hlast.exists_sets
    exact ⟨p, hp, b, hsets⟩
  · rintro ⟨p, hp, b, hsets⟩
    cases hlast : (ps.filterMap (proposal? v)).getLast? with
    | none => exact absurd hsets (getLast?_proposals_eq_none.1 hlast p hp b)
    | some q =>
      cases q with
      | unset => exact absurd hlast getLast?_proposals_ne_unset
      | negative => exact ⟨false, getLast?_proposals.1 hlast⟩
      | positive => exact ⟨true, getLast?_proposals.1 hlast⟩

/-- What the last prediction for a variable sets stays so with more predictions that do not set this
variable. -/
theorem LastSets.append (h : LastSets few v b) (hmore : ∀ p ∈ more, ∀ c, ¬ p.Sets v c) :
    LastSets (few ++ more) v b := by
  obtain ⟨before, p, after, rfl, hp, hafter⟩ := h
  refine ⟨before, p, after ++ more, by simp, hp, fun r hr => ?_⟩
  rcases List.mem_append.1 hr with hr | hr
  · exact hafter r hr
  · exact hmore r hr

theorem LastSets.of_front (h : LastSets few v b) (hfront : few <+: many)
    (hmany : Unambiguous many) : LastSets many v b := by
  obtain ⟨more, rfl⟩ := hfront
  obtain ⟨p, hp, hsets⟩ := h.exists_sets
  refine h.append fun r hr c hagain => ?_
  have hdifferent : p.index? ≠ r.index? := (List.pairwise_append.1 hmany).2.2 p hp r hr
    hsets.not_setsNothing hagain.not_setsNothing
  exact hdifferent (hsets.1.trans hagain.1.symm)

end Prediction

namespace Generated

open Prediction

variable {f g : Generated} {x y : Double}

/-! ## Hints of which one is made of more predictions -/

/-- The hint has a phase for the variable. -/
def IsSet (g : Generated) (v : Nat) : Prop := ∃ b, g.phases[v]? = some (.ofBool b)

theorem FilledBy.isSet_iff (hg : g.FilledBy ps) : g.IsSet v ↔ ∃ p ∈ ps, ∃ b, p.Sets v b := by
  simp only [IsSet, hg.entry, exists_lastSets_iff]

section

variable (hf : f.FilledBy few) (hg : g.FilledBy many) (hfront : few <+: many)

include hf hg hfront

/-- No entry is lost. -/
theorem FilledBy.isSet_mono (hset : f.IsSet v) : g.IsSet v := by
  obtain ⟨p, hp, hsets⟩ := hf.isSet_iff.1 hset
  exact hg.isSet_iff.2 ⟨p, hfront.subset hp, hsets⟩

/-- Only a second prediction for its variable changes an entry that is set. -/
theorem FilledBy.entry_mono (hmany : Unambiguous many) (hv : f.phases[v]? = some (.ofBool b)) :
    g.phases[v]? = some (.ofBool b) :=
  (hg.entry v b).2 (((hf.entry v b).1 hv).of_front hfront hmany)

theorem FilledBy.skipped_mono : f.skipped ≤ g.skipped := by
  rw [hf.skipped, hg.skipped]
  exact hfront.sublist.countP_le

end

/-! ## Fractions of which one keeps more predictions -/

theorem keptCount_mono {vars : Nat} (count : Nat) (h : topCount vars x ≤ topCount vars y) :
    keptCount count vars (some x) ≤ keptCount count vars (some y) := by
  simp only [keptCount]
  omega

theorem keptCount_of_le {count vars : Nat} (h : count ≤ topCount vars y) :
    keptCount count vars (some y) = count :=
  Nat.min_eq_right h

/-- **A larger fraction only adds information.** Of two fractions that can be used, the one that
keeps as many predictions or more makes a hint of the same size, with an entry set wherever the
other hint has one, and skips as many predictions or more. If no two predictions set the same
variable, the entries agree there. A fraction that keeps all predictions is like no fraction. -/
theorem larger_fraction_extends (hlargest : Largest ps largest)
    (hroom : Memory.allow (largest + 1) = .ok (largest + 1)) :
    (∀ x y, Accepted x → Accepted y → topCount (largest + 1) x ≤ topCount (largest + 1) y →
      ∃ (few many : List Prediction) (f g : Generated),
        kept ps (largest + 1) (some x) = .ok few ∧ kept ps (largest + 1) (some y) = .ok many ∧
        ofPredictions ps (some x) = .ok f ∧ ofPredictions ps (some y) = .ok g ∧
        few.length ≤ many.length ∧ f.size = g.size ∧ (∀ v, f.IsSet v → g.IsSet v) ∧
        f.skipped ≤ g.skipped ∧
        (Unambiguous ps → ∀ (v : Nat) (b : Bool),
          f.phases[v]? = some (.ofBool b) → g.phases[v]? = some (.ofBool b))) ∧
    ∀ y, Accepted y → ps.length ≤ topCount (largest + 1) y →
      ofPredictions ps none = ofPredictions ps (some y) := by
  constructor
  · intro x y hx hy hle
    obtain ⟨hrunf, hsizef, hf⟩ := ofPredictions_filledBy hlargest hroom hx.of_mem
    obtain ⟨hrung, hsizeg, hg⟩ := ofPredictions_filledBy hlargest hroom hy.of_mem
    have hfront := List.take_prefix_take_left (l := ps) (keptCount_mono ps.length hle)
    refine ⟨_, _, _, _, kept_eq_ok hx.of_mem, kept_eq_ok hy.of_mem, hrunf, hrung,
      hfront.length_le, hsizef.trans hsizeg.symm, fun v => hf.isSet_mono hg hfront,
      hf.skipped_mono hg hfront, fun hps v b => ?_⟩
    exact hf.entry_mono hg hfront (hps.sublist (List.take_sublist _ _))
  · intro y hy hlength
    have hnone : ∀ z ∈ (none : Option Double), Accepted z := nofun
    have hall : keptCount ps.length (largest + 1) (some y) =
        keptCount ps.length (largest + 1) none := keptCount_of_le hlength
    obtain ⟨hrun, -, -⟩ := ofPredictions_filledBy hlargest hroom hy.of_mem
    obtain ⟨hrunall, -, -⟩ := ofPredictions_filledBy hlargest hroom hnone
    rw [hrun, hrunall, hall]

/-- One. -/
def whole : Double := .ofBits 0x3FF0000000000000

/-- Half of five variables keeps three of four predictions for different variables, and all of them
keep the fourth, too. -/
theorem larger_fraction_extends_ranked :
    Largest ranked.tail 4 ∧ Memory.allow 5 = .ok 5 ∧ topCount 5 half ≤ topCount 5 whole ∧
      Unambiguous ranked.tail ∧ ∃ f g,
        ofPredictions ranked.tail (some half) = .ok f ∧
        ofPredictions ranked.tail (some whole) = .ok g ∧
        f = ⟨#[.unset, .positive, .unset, .unset, .unset], 2⟩ ∧
        g = ⟨#[.negative, .positive, .unset, .unset, .unset], 2⟩ ∧
        (∀ (v : Nat) (b : Bool), f.phases[v]? = some (.ofBool b) →
          g.phases[v]? = some (.ofBool b)) ∧
        ofPredictions ranked.tail none = .ok g := by
  have hlargest : Largest ranked.tail 4 := ⟨by decide, by decide⟩
  have hle : topCount 5 half ≤ topCount 5 whole := by decide +kernel
  have hcount : ranked.tail.length ≤ topCount 5 whole := by decide +kernel
  have hdifferent : Unambiguous ranked.tail := by decide
  obtain ⟨hcompare, hall⟩ := larger_fraction_extends hlargest rfl
  obtain ⟨few, many, f, g, -, -, hrunf, hrung, -, -, -, -, hkeep⟩ :=
    hcompare half whole (by decide +kernel) (by decide +kernel) hle
  have hf : ofPredictions ranked.tail (some half) =
      .ok ⟨#[.unset, .positive, .unset, .unset, .unset], 2⟩ := by decide +kernel
  have hg : ofPredictions ranked.tail (some whole) =
      .ok ⟨#[.negative, .positive, .unset, .unset, .unset], 2⟩ := by decide +kernel
  exact ⟨hlargest, rfl, hle, hdifferent, f, g, hrunf, hrung, Except.ok.inj (hrunf.symm.trans hf),
    Except.ok.inj (hrung.symm.trans hg), hkeep hdifferent,
    (hall whole (by decide +kernel) hcount).trans hrung⟩

end Generated

end Polarity
