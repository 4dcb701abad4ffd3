import Polarity.Prediction.Generate
import Polarity.Proofs.Double.Values

/-!
# How many predictions a fraction keeps

The number of variables is rounded to a double, its product with the fraction is rounded to another
one, and the least natural number that is not less than this is the count. It has 64 bits at most, and
at least one prediction is kept if the fraction is above zero (`exists_topCount_eq`).

**Theorem (`topCount_keeps_order`).** As rounding keeps the order, so does the count: neither more
variables nor a larger fraction lead to fewer predictions. Nothing is kept just in case the fraction is
not above zero, or no number, and one keeps as many predictions as there are variables.
-/

namespace Polarity.Generated

open Double

variable {vars vars' : Nat} {d f g : Double} {x y : ℚ}

/-! ## The count -/

theorem topCount_le (vars : Nat) (d : Double) : topCount vars d ≤ Numeral.word := by
  have hle : ((ofNat vars).mul d).ceilNat Numeral.word ≤ Numeral.word := ceilNat_le _ _
  simp only [topCount]
  split
  · decide
  · exact hle

theorem topCount_of_positive (h : d.isPositive = true) :
    topCount vars d = max 1 (((ofNat vars).mul d).ceilNat Numeral.word) := by
  simp only [topCount, h, and_true]
  split <;> omega

/-- **Nothing is kept** just in case the fraction is not above zero, or no number. -/
theorem topCount_eq_zero_iff : topCount vars d = 0 ↔ d.isPositive = false := by
  cases hd : d.isPositive with
  | false =>
    have hproduct : ((ofNat vars).mul d).isPositive = false := isPositive_mul _ _ hd
    simp [topCount, hd, ceilNat_of_not_positive _ hproduct]
  | true =>
    rw [topCount_of_positive hd]
    refine iff_of_false ?_ nofun
    omega

/-- **The count for a fraction above zero**, with both roundings. -/
theorem exists_topCount_eq (hvars : vars ≤ Numeral.word) (hf : f.value? = some x) (hx : 0 < x) :
    ∃ a p, RoundsTo (vars * one) a ∧ RoundsTo (a * x) p ∧
      topCount vars f = max 1 (min Numeral.word ⌈(p : ℚ) / one⌉₊) := by
  obtain ⟨s, u, rfl, rfl, hsign⟩ := exists_units_of_value? hf hx.le
  obtain rfl := hsign hx
  obtain ⟨a, ha, hofNat⟩ := exists_ofNat_eq hvars
  have hlimit : Numeral.word * one ≤ ceiling := by decide +kernel
  have hproduct : (ofNat vars).mul (finite false u) = ofUnits false (a * u) one := by
    rw [hofNat, mul]
    rfl
  refine ⟨a, nearest (a * u) one, ha, roundsTo_mul a u, ?_⟩
  rw [topCount_of_positive ((isPositive_iff hf).2 hx), hproduct, ceilNat_ofUnits hlimit]

/-! ## The order of counts -/

theorem topCount_mono (hvars : vars ≤ vars') (hword : vars' ≤ Numeral.word)
    (hf : f.value? = some x) (hg : g.value? = some y) (hx : 0 ≤ x) (hxy : x ≤ y) :
    topCount vars f ≤ topCount vars' g := by
  rcases hx.eq_or_lt with rfl | hpos
  · have hzero : topCount vars f = 0 :=
      topCount_eq_zero_iff.2 (Bool.eq_false_iff.2 fun h => lt_irrefl _ ((isPositive_iff hf).1 h))
    rw [hzero]
    exact Nat.zero_le _
  · obtain ⟨a, p, ha, hp, hcount⟩ := exists_topCount_eq (hvars.trans hword) hf hpos
    obtain ⟨b, r, hb, hr, hcount'⟩ := exists_topCount_eq hword hg (hpos.trans_le hxy)
    have hab : a ≤ b := by
      refine ha.mono hb ?_
      exact_mod_cast Nat.mul_le_mul_right one hvars
    have hpr : p ≤ r := by
      have hab' : (a : ℚ) ≤ b := by exact_mod_cast hab
      exact hp.mono hr (mul_le_mul hab' hxy hpos.le (Nat.cast_nonneg b))
    have hceil : ⌈(p : ℚ) / one⌉₊ ≤ ⌈(r : ℚ) / one⌉₊ := by
      have hpr' : (p : ℚ) ≤ r := by exact_mod_cast hpr
      exact Nat.ceil_mono (div_le_div_of_nonneg_right hpr' cast_one_pos.le)
    rw [hcount, hcount']
    omega

/-- **One keeps as many predictions as there are variables**, as long as all their numbers are
representable. -/
theorem topCount_of_one (hvars : vars ≤ 2 ^ 53) (hf : f.value? = some 1) :
    topCount vars f = max vars 1 := by
  have hword : vars ≤ Numeral.word := hvars.trans (by decide)
  obtain ⟨a, p, ha, hp, hcount⟩ := exists_topCount_eq hword hf one_pos
  obtain rfl : vars * one = a := by
    refine RoundsTo.unique ?_ ha
    exact_mod_cast RoundsTo.self (representable_mul_one hvars)
  obtain rfl : vars * one = p := by
    rw [mul_one] at hp
    exact (RoundsTo.self ha.representable).unique hp
  have hquotient : ((vars * one : Nat) : ℚ) / one = vars := by
    rw [Nat.cast_mul, mul_div_cancel_right₀ _ cast_one_pos.ne']
  rw [hcount, hquotient, Nat.ceil_natCast]
  omega

/-- **The count keeps the order.** More variables or a larger fraction never lead to fewer predictions.
A fraction of zero keeps none, any other fraction above it keeps one at least: the least natural number
not below the product of both, each rounded to the nearest double and cut off where 64 bits end. One
keeps all if their number is not too large to be a double. The count has 64 bits whatever the bit
pattern of the fraction is, and is zero for negative ones and those of no number. -/
theorem topCount_keeps_order :
    (∀ (vars vars' f g : UInt64) (x y : ℚ), (ofBits f).value? = some x →
      (ofBits g).value? = some y → vars ≤ vars' → 0 ≤ x → x ≤ y →
        topCount vars.toNat (ofBits f) ≤ topCount vars'.toNat (ofBits g)) ∧
    (∀ (vars f : UInt64) (x : ℚ), (ofBits f).value? = some x → 0 ≤ x →
      (topCount vars.toNat (ofBits f) = 0 ↔ x = 0)) ∧
    (∀ (vars f : UInt64) (x : ℚ), (ofBits f).value? = some x → 0 < x →
      ∃ a p, RoundsTo (vars.toNat * one) a ∧ RoundsTo (a * x) p ∧
        topCount vars.toNat (ofBits f) = max 1 (min (2 ^ 64 - 1) ⌈(p : ℚ) / one⌉₊)) ∧
    (∀ vars f : UInt64, (ofBits f).value? = some 1 → vars.toNat ≤ 2 ^ 53 →
      topCount vars.toNat (ofBits f) = max vars.toNat 1) ∧
    ∀ vars f : UInt64, topCount vars.toNat (ofBits f) ≤ 2 ^ 64 - 1 ∧
      (ofBits f = nan ∨ 2 ^ 63 ≤ f.toNat → topCount vars.toNat (ofBits f) = 0) := by
  have hword (n : UInt64) : n.toNat ≤ Numeral.word := Nat.le_of_lt_succ n.toNat_lt
  refine ⟨fun vars vars' f g x y hf hg hvars hx hxy => ?_, fun vars f x hf hx => ?_,
    fun vars f x hf hx => ?_, fun vars f hf hvars => topCount_of_one hvars hf,
    fun vars f => ⟨topCount_le _ _, fun h => topCount_eq_zero_iff.2 ?_⟩⟩
  · exact topCount_mono (UInt64.le_iff_toNat_le.1 hvars) (hword vars') hf hg hx hxy
  · rw [topCount_eq_zero_iff, Bool.eq_false_iff, ne_eq, isPositive_iff hf, not_lt]
    exact ⟨fun h => le_antisymm h hx, fun h => h.le⟩
  · exact exists_topCount_eq (hword vars) hf hx
  · rcases h with hnan | hsign
    · rw [hnan]
      rfl
    · exact isPositive_ofBits hsign

/-- One half and one as bit patterns, for five variables and for as many as 64 bits can count, and the
pattern of the number below all others. -/
theorem topCount_keeps_order_halves :
    (ofBits 0x3FE0000000000000).value? = some (1 / 2) ∧
      (ofBits 0x3FF0000000000000).value? = some 1 ∧
      topCount 5 (ofBits 0x3FE0000000000000) ≤
        topCount 0xFFFFFFFFFFFFFFFF (ofBits 0x3FF0000000000000) ∧
      topCount 5 (ofBits 0x3FF0000000000000) = 5 ∧
      topCount 5 (ofBits 0x3FE0000000000000) ≠ 0 ∧
      topCount 5 (ofBits 0xFFF0000000000000) = 0 := by
  obtain ⟨horder, hzero, -, hone, hall⟩ := topCount_keeps_order
  have hhalfUnits : ofBits 0x3FE0000000000000 = finite false (one / 2) := by decide +kernel
  have honeUnits : ofBits 0x3FF0000000000000 = finite false one := by decide +kernel
  have hhalf : (ofBits 0x3FE0000000000000).value? = some (1 / 2) := by
    have hdouble : 2 * (one / 2) = one := by decide +kernel
    have hquotient : ((one / 2 : Nat) : ℚ) / one = 1 / 2 := by
      rw [div_eq_div_iff cast_one_pos.ne' two_ne_zero, one_mul]
      exact_mod_cast (Nat.mul_comm _ _).trans hdouble
    rw [hhalfUnits, value?, if_neg Bool.false_ne_true, hquotient]
  have hwhole : (ofBits 0x3FF0000000000000).value? = some 1 := by
    rw [honeUnits, value?, if_neg Bool.false_ne_true, div_self cast_one_pos.ne']
  refine ⟨hhalf, hwhole, horder 5 0xFFFFFFFFFFFFFFFF _ _ _ _ hhalf hwhole (by decide) (by norm_num)
    (by norm_num), hone 5 _ hwhole (by decide), ?_, (hall 5 _).2 (.inr (by decide))⟩
  intro h
  exact absurd ((hzero 5 _ _ hhalf (by norm_num)).1 h) (by norm_num)

end Polarity.Generated
