import Mathlib.Algebra.Order.Field.Basic
import Mathlib.Algebra.Order.Field.Rat
import Mathlib.Data.Nat.Cast.Order.Field
import Mathlib.Tactic.FieldSimp
import Mathlib.Tactic.Linarith
import Mathlib.Tactic.Ring
import Polarity.Double.Basic

/-!
# Rounding to doubles

**The numbers that doubles can hold** (`Representable`) are those with 53 significant bits, in units.

**Rounding** (`RoundsTo`). A number is rounded to a representable one that is nearest to it, and of two
that are equally near to the one whose last significant bit is zero. There is exactly one such number
(`RoundsTo.unique`), a representable number is rounded to itself, and a larger number is not rounded to
a smaller one (`RoundsTo.mono`). `nearest` computes it (`roundsTo_nearest`).
-/

namespace Polarity.Double

variable {u v r m e num den : Nat} {q q' : ℚ}

/-! ## Representable numbers -/

/-- So many units have 53 significant bits. -/
def Representable (units : Nat) : Prop := ∃ m e, m < 2 ^ 53 ∧ units = m * 2 ^ e

/-- The significant bits of a number of units. -/
def significand (units : Nat) : Nat := units / 2 ^ lastBit units

/-- The last bit is as low as 53 bits reach. -/
theorem lastBit_le_iff : lastBit u ≤ e ↔ u < 2 ^ 53 * 2 ^ e := by
  rw [← Nat.pow_add]
  by_cases hu : u = 0
  · subst hu
    exact iff_of_true (Nat.zero_le e) (Nat.two_pow_pos _)
  · rw [← Nat.log2_lt hu, lastBit]
    omega

theorem lt_two_pow_lastBit (u : Nat) : u < 2 ^ 53 * 2 ^ lastBit u :=
  lastBit_le_iff.1 (Nat.le_refl _)

theorem lastBit_mono (h : u ≤ v) : lastBit u ≤ lastBit v :=
  lastBit_le_iff.2 (Nat.lt_of_le_of_lt h (lt_two_pow_lastBit v))

theorem le_lastBit_iff (he : e ≠ 0) : e ≤ lastBit u ↔ 2 ^ 52 * 2 ^ e ≤ u := by
  obtain ⟨f, rfl⟩ := Nat.exists_eq_succ_of_ne_zero he
  have hpow : 2 ^ 52 * 2 ^ (f + 1) = 2 ^ 53 * 2 ^ f := by ring
  have h := not_congr (lastBit_le_iff (u := u) (e := f))
  rw [Nat.not_le, Nat.not_lt] at h
  rw [Nat.succ_le_iff, h, hpow]

theorem lastBit_mul_le (hm : m < 2 ^ 53) : lastBit (m * 2 ^ e) ≤ e :=
  lastBit_le_iff.2 (Nat.mul_lt_mul_of_pos_right hm (Nat.two_pow_pos e))

/-- The last bit is where it is written if the 52 bits before it are there, or none can be below. -/
theorem lastBit_mul (hm : m < 2 ^ 53) (hfull : e = 0 ∨ 2 ^ 52 ≤ m) : lastBit (m * 2 ^ e) = e := by
  refine Nat.le_antisymm (lastBit_mul_le hm) ?_
  rcases Nat.eq_zero_or_pos e with rfl | hpos
  · exact Nat.zero_le _
  · have hm' : 2 ^ 52 ≤ m := hfull.resolve_left (Nat.ne_of_gt hpos)
    exact (le_lastBit_iff (Nat.ne_of_gt hpos)).2 (Nat.mul_le_mul_right _ hm')

theorem significand_mul (hm : m < 2 ^ 53) (hfull : e = 0 ∨ 2 ^ 52 ≤ m) :
    significand (m * 2 ^ e) = m := by
  rw [significand, lastBit_mul hm hfull, Nat.mul_div_cancel _ (Nat.two_pow_pos e)]

/-- Too many bits by one: the number is written with one bit. -/
theorem two_pow_mul (e : Nat) : 2 ^ 53 * 2 ^ e = 2 ^ 52 * 2 ^ (e + 1) := by ring

theorem even_significand_mul (hm : m ≤ 2 ^ 53) (hfull : e = 0 ∨ 2 ^ 52 ≤ m) (heven : m % 2 = 0) :
    significand (m * 2 ^ e) % 2 = 0 := by
  rcases Nat.lt_or_eq_of_le hm with hlt | rfl
  · rw [significand_mul hlt hfull, heven]
  · rw [two_pow_mul, significand_mul (by decide) (.inr (Nat.le_refl _))]
    rfl

theorem representable_mul (hm : m ≤ 2 ^ 53) : Representable (m * 2 ^ e) := by
  rcases Nat.lt_or_eq_of_le hm with hlt | rfl
  · exact ⟨m, e, hlt, rfl⟩
  · exact ⟨2 ^ 52, e + 1, by decide, two_pow_mul e⟩

theorem significand_lt (u : Nat) : significand u < 2 ^ 53 :=
  (Nat.div_lt_iff_lt_mul (Nat.two_pow_pos _)).2 (lt_two_pow_lastBit u)

theorem le_significand (h : lastBit u ≠ 0) : 2 ^ 52 ≤ significand u :=
  (Nat.le_div_iff_mul_le (Nat.two_pow_pos _)).2 ((le_lastBit_iff h).1 (Nat.le_refl _))

theorem lastBit_eq_zero_or_le_significand (u : Nat) : lastBit u = 0 ∨ 2 ^ 52 ≤ significand u :=
  (em (lastBit u = 0)).imp_right le_significand

/-- **A number is representable if nothing of it is below its last bit.** -/
theorem representable_iff : Representable u ↔ u = significand u * 2 ^ lastBit u := by
  constructor
  · rintro ⟨m, e, hm, rfl⟩
    have hdvd : 2 ^ lastBit (m * 2 ^ e) ∣ m * 2 ^ e :=
      Dvd.dvd.mul_left (Nat.pow_dvd_pow 2 (lastBit_mul_le hm)) m
    exact (Nat.div_mul_cancel hdvd).symm
  · intro h
    exact ⟨_, _, significand_lt u, h⟩

theorem Representable.dvd (hu : Representable u) : 2 ^ lastBit u ∣ u :=
  ⟨significand u, (representable_iff.1 hu).trans (Nat.mul_comm _ _)⟩

theorem lt_next (u : Nat) : u < (significand u + 1) * 2 ^ lastBit u :=
  Nat.lt_mul_of_div_lt (Nat.lt_succ_self _) (Nat.two_pow_pos _)

/-- The representable numbers above are not below the one with the next last bit. -/
theorem Representable.next_le (hv : Representable v) (h : u < v) :
    (significand u + 1) * 2 ^ lastBit u ≤ v := by
  obtain ⟨k, rfl⟩ := (Nat.pow_dvd_pow 2 (lastBit_mono h.le)).trans hv.dvd
  have hk : significand u < k := Nat.div_lt_of_lt_mul h
  rw [Nat.mul_comm]
  exact Nat.mul_le_mul_left _ hk

/-! ## Rounding -/

/-- Rounding a number gives so many units: a representable number that is nearest to it, and one
whose last bit is zero if another one is equally near. -/
structure RoundsTo (q : ℚ) (units : Nat) : Prop where
  representable : Representable units
  nearest : ∀ r, Representable r → |q - units| ≤ |q - r|
  even : ∀ r, Representable r → r ≠ units → |q - units| = |q - r| → significand units % 2 = 0

/-- Of two numbers the greater one is as near if the middle between them is not passed. -/
theorem abs_sub_le_iff {a b : ℚ} (h : a < b) : |q - b| ≤ |q - a| ↔ (a + b) / 2 ≤ q := by
  constructor
  · intro hle
    by_contra hlt
    have hb : |q - b| = b - q := by
      rw [abs_sub_comm]
      exact abs_of_nonneg (by linarith)
    rcases abs_cases (q - a) with ⟨ha, -⟩ | ⟨ha, -⟩ <;> linarith
  · intro hmiddle
    have ha : |q - a| = q - a := abs_of_nonneg (by linarith)
    rw [ha, abs_le]
    constructor <;> linarith

theorem abs_sub_ge_iff {a b : ℚ} (h : a < b) : |q - a| ≤ |q - b| ↔ q ≤ (a + b) / 2 := by
  have hneg := abs_sub_le_iff (q := -q) (neg_lt_neg h)
  rw [neg_sub_neg, neg_sub_neg, abs_sub_comm a, abs_sub_comm b] at hneg
  rw [hneg]
  constructor <;> intro hle <;> linarith

namespace RoundsTo

/-- Between two equally near numbers the last bits alternate. -/
theorem not_lt (hu : RoundsTo q u) (hv : RoundsTo q v) : ¬ u < v := by
  intro hlt
  have hlt' : (u : ℚ) < v := by exact_mod_cast hlt
  have hlow := (abs_sub_ge_iff hlt').1 (hu.nearest v hv.representable)
  have hhigh := (abs_sub_le_iff hlt').1 (hv.nearest u hu.representable)
  have hequal : |q - u| = |q - v| := le_antisymm ((abs_sub_ge_iff hlt').2 hlow)
    ((abs_sub_le_iff hlt').2 hhigh)
  have hevenu := hu.even v hv.representable (Nat.ne_of_gt hlt) hequal
  have hevenv := hv.even u hu.representable (Nat.ne_of_lt hlt) hequal.symm
  have hnext : significand u + 1 < 2 ^ 53 := by
    have := significand_lt u
    omega
  have hfull : lastBit u = 0 ∨ 2 ^ 52 ≤ significand u + 1 :=
    (lastBit_eq_zero_or_le_significand u).imp_right Nat.le_succ_of_le
  have hw : Representable ((significand u + 1) * 2 ^ lastBit u) := ⟨_, _, hnext, rfl⟩
  have hlast : significand ((significand u + 1) * 2 ^ lastBit u) = significand u + 1 :=
    significand_mul hnext hfull
  have hlew : (significand u + 1) * 2 ^ lastBit u ≤ v := hv.representable.next_le hlt
  have hltw : u < (significand u + 1) * 2 ^ lastBit u := lt_next u
  generalize (significand u + 1) * 2 ^ lastBit u = w at *
  have hltw' : (u : ℚ) < w := by exact_mod_cast hltw
  have hlew' : (w : ℚ) ≤ v := by exact_mod_cast hlew
  have hloww := (abs_sub_ge_iff hltw').1 (hu.nearest w hw)
  -- The next representable number is not between the two, so it is the greater one.
  obtain rfl : w = v := by
    have hgew : (v : ℚ) ≤ w := by linarith
    exact Nat.le_antisymm hlew (by exact_mod_cast hgew)
  omega

theorem unique (hu : RoundsTo q u) (hv : RoundsTo q v) : u = v :=
  Nat.le_antisymm (Nat.not_lt.1 (hv.not_lt hu)) (Nat.not_lt.1 (hu.not_lt hv))

/-- **Rounding keeps the order.** -/
theorem mono (hu : RoundsTo q u) (hv : RoundsTo q' v) (h : q ≤ q') : u ≤ v := by
  by_contra hlt
  rw [Nat.not_le] at hlt
  have hlt' : (v : ℚ) < u := by exact_mod_cast hlt
  have hlow := (abs_sub_le_iff hlt').1 (hu.nearest v hv.representable)
  have hhigh := (abs_sub_ge_iff hlt').1 (hv.nearest u hu.representable)
  -- Both numbers are in the middle.
  obtain rfl : q = q' := le_antisymm h (hhigh.trans hlow)
  exact Nat.ne_of_lt hlt (hv.unique hu)

/-- A representable number stays as it is. -/
theorem self (hu : Representable u) : RoundsTo u u where
  representable := hu
  nearest r _ := by
    rw [sub_self, abs_zero]
    exact abs_nonneg _
  even r _ hne hequal := by
    rw [sub_self, abs_zero, eq_comm, abs_eq_zero, sub_eq_zero] at hequal
    exact absurd (by exact_mod_cast hequal.symm) hne

end RoundsTo

/-! ## Computing it -/

theorem roundQuotient_bounds (num den : Nat) :
    num / den ≤ roundQuotient num den ∧ roundQuotient num den ≤ num / den + 1 := by
  simp only [roundQuotient]
  split
  · omega
  · split <;> omega

/-- A quotient is rounded by one half at most, and by one half only to an even number. -/
theorem abs_sub_roundQuotient_le (num : Nat) (hden : 0 < den) :
    |(num : ℚ) - roundQuotient num den * den| ≤ den / 2 ∧
      (|(num : ℚ) - roundQuotient num den * den| = den / 2 → roundQuotient num den % 2 = 0) := by
  have hnum : (num : ℚ) = (num / den : Nat) * den + (num % den : Nat) := by
    exact_mod_cast (Nat.div_add_mod' num den).symm
  have hlt : ((num % den : Nat) : ℚ) < den := by exact_mod_cast Nat.mod_lt num hden
  have hdown : (num : ℚ) - (num / den : Nat) * den = (num % den : Nat) := by linarith
  have hup : (num : ℚ) - ((num / den : Nat) + 1 : Nat) * den = (num % den : Nat) - den := by
    push_cast
    linarith
  have habsdown : |(num : ℚ) - (num / den : Nat) * den| = (num % den : Nat) := by
    rw [hdown, Nat.abs_cast]
  have habsup : |(num : ℚ) - ((num / den : Nat) + 1 : Nat) * den| = den - (num % den : Nat) := by
    rw [hup, abs_of_nonpos (by linarith), neg_sub]
  simp only [roundQuotient]
  split
  · next hless =>
    have hless' : 2 * ((num % den : Nat) : ℚ) < den := by exact_mod_cast hless
    rw [habsdown]
    exact ⟨by linarith, fun h => by linarith⟩
  · next hless =>
    split
    · next hmore =>
      have hmore' : (den : ℚ) < 2 * (num % den : Nat) := by exact_mod_cast hmore
      rw [habsup]
      exact ⟨by linarith, fun h => by linarith⟩
    · next hmore =>
      have hhalf : 2 * ((num % den : Nat) : ℚ) = den := by
        exact_mod_cast (by omega : 2 * (num % den) = den)
      rcases Nat.mod_two_eq_zero_or_one (num / den) with heven | hodd
      · rw [heven, Nat.add_zero, habsdown]
        exact ⟨by linarith, fun _ => heven⟩
      · rw [hodd, habsup]
        exact ⟨by linarith, fun _ => by omega⟩

/-- Of the multiples of a number all but one are half of it away. -/
theorem half_le_abs_sub {s : ℚ} {j k : Nat} (hs : 0 ≤ s) (h : |q - k * s| ≤ s / 2) (hjk : j ≠ k) :
    s / 2 ≤ |q - j * s| := by
  have hone : (1 : ℚ) ≤ |(k : ℚ) - j| := by
    have hne : ((k : ℤ) - j) ≠ 0 := by omega
    exact_mod_cast Int.one_le_abs hne
  have hapart : s ≤ |k * s - j * s| := by
    rw [← sub_mul, abs_mul, abs_of_nonneg hs]
    exact le_mul_of_one_le_left hs hone
  have htriangle := abs_sub_le (k * s) q (j * s)
  rw [abs_sub_comm (k * s) q] at htriangle
  linarith

/-- A representable number that is no multiple of the last bit is below the binade. -/
theorem Representable.dvd_or_lt (hr : Representable r) (num den : Nat) :
    2 ^ lastBit (num / den) ∣ r ∨
      (r : ℚ) < (2 ^ 52 : Nat) * 2 ^ lastBit (num / den) ∧
        ((2 ^ 52 : Nat) : ℚ) * 2 ^ lastBit (num / den) ≤ num / den := by
  rcases Nat.lt_or_ge (lastBit r) (lastBit (num / den)) with hlt | hge
  · right
    have hne : lastBit (num / den) ≠ 0 := Nat.ne_zero_of_lt hlt
    constructor
    · have hbelow : ¬ 2 ^ 52 * 2 ^ lastBit (num / den) ≤ r :=
        fun h => Nat.not_le.2 hlt ((le_lastBit_iff hne).2 h)
      exact_mod_cast Nat.not_le.1 hbelow
    · have hfloor : 2 ^ 52 * 2 ^ lastBit (num / den) ≤ num / den :=
        (le_lastBit_iff hne).1 (Nat.le_refl _)
      refine le_trans ?_ (Nat.cast_div_le (α := ℚ))
      exact_mod_cast hfloor
  · exact .inl ((Nat.pow_dvd_pow 2 hge).trans hr.dvd)

theorem nearest_eq : nearest num den =
    roundQuotient num (den * 2 ^ lastBit (num / den)) * 2 ^ lastBit (num / den) := rfl

/-- The rounded quotient has 53 bits, or is the first number that has more. -/
theorem roundQuotient_range (num den : Nat) :
    roundQuotient num (den * 2 ^ lastBit (num / den)) ≤ 2 ^ 53 ∧
      (lastBit (num / den) = 0 ∨
        2 ^ 52 ≤ roundQuotient num (den * 2 ^ lastBit (num / den))) := by
  obtain ⟨hlow, hhigh⟩ := roundQuotient_bounds num (den * 2 ^ lastBit (num / den))
  rw [← Nat.div_div_eq_div_mul] at hlow hhigh
  have hlt := significand_lt (num / den)
  have hfull := lastBit_eq_zero_or_le_significand (num / den)
  unfold significand at hlt hfull
  exact ⟨by omega, hfull.imp_right fun h => h.trans hlow⟩

section

variable (hden : 0 < den)

include hden

/-- In the same way it is rounded by half of its last bit at most. -/
theorem abs_sub_nearest_le (num : Nat) :
    |(num : ℚ) / den - nearest num den| ≤ 2 ^ lastBit (num / den) / 2 ∧
      (|(num : ℚ) / den - nearest num den| = 2 ^ lastBit (num / den) / 2 →
        roundQuotient num (den * 2 ^ lastBit (num / den)) % 2 = 0) := by
  have hden' : (0 : ℚ) < den := by exact_mod_cast hden
  have h := abs_sub_roundQuotient_le num
    (Nat.mul_pos hden (Nat.two_pow_pos (lastBit (num / den))))
  have hscaled : |(num : ℚ) / den - nearest num den| =
      |(num : ℚ) - roundQuotient num (den * 2 ^ lastBit (num / den)) *
        (den * 2 ^ lastBit (num / den) : Nat)| / den := by
    rw [← abs_of_pos hden', ← abs_div, abs_of_pos hden']
    congr 1
    simp only [nearest, Nat.pow_eq]
    push_cast
    field_simp
  rw [hscaled, div_le_iff₀ hden', div_eq_iff hden'.ne']
  have hright : (2 : ℚ) ^ lastBit (num / den) / 2 * den =
      (den * 2 ^ lastBit (num / den) : Nat) / 2 := by
    push_cast
    ring
  rwa [hright]

/-- **The rounded quotient is nearest** of all representable numbers, and if it is not the only one
then the quotient is in the middle between two multiples of its last bit. -/
theorem abs_sub_nearest_le_abs_sub (hr : Representable r) :
    |(num : ℚ) / den - nearest num den| ≤ |(num : ℚ) / den - r| ∧
      (r ≠ nearest num den → |(num : ℚ) / den - nearest num den| = |(num : ℚ) / den - r| →
        |(num : ℚ) / den - nearest num den| = 2 ^ lastBit (num / den) / 2) := by
  have hnear := (abs_sub_nearest_le hden num).1
  have hs : (0 : ℚ) < 2 ^ lastBit (num / den) := by positivity
  rw [nearest_eq, Nat.cast_mul, Nat.cast_pow, Nat.cast_two] at *
  generalize roundQuotient num (den * 2 ^ lastBit (num / den)) = k at *
  rcases hr.dvd_or_lt num den with ⟨j, rfl⟩ | ⟨hbelow, habove⟩
  · rw [Nat.cast_mul, Nat.cast_pow, Nat.cast_two, mul_comm (2 ^ _ : ℚ) (j : ℚ)]
    rw [Nat.mul_comm]
    rcases eq_or_ne j k with rfl | hjk
    · exact ⟨le_refl _, fun hne => absurd rfl hne⟩
    · have hfar := half_le_abs_sub hs.le hnear hjk
      exact ⟨hnear.trans hfar, fun _ hequal => le_antisymm hnear (hequal ▸ hfar)⟩
  · -- The least number of the binade is between the two, and a multiple of the last bit.
    have hstart : |(num : ℚ) / den - k * 2 ^ lastBit (num / den)| ≤
        |(num : ℚ) / den - (2 ^ 52 : Nat) * 2 ^ lastBit (num / den)| := by
      rcases eq_or_ne (2 ^ 52) k with rfl | hne
      · exact le_refl _
      · exact hnear.trans (half_le_abs_sub hs.le hnear hne)
    have hless : |(num : ℚ) / den - k * 2 ^ lastBit (num / den)| < |(num : ℚ) / den - r| := by
      rw [abs_of_nonneg (by linarith : (0 : ℚ) ≤ num / den - r)]
      rw [abs_of_nonneg (by linarith : (0 : ℚ) ≤ num / den - (2 ^ 52 : Nat) * _)] at hstart
      linarith
    exact ⟨hless.le, fun _ hequal => absurd hequal hless.ne⟩

/-- **Quotients are rounded as they should be.** -/
theorem roundsTo_nearest : RoundsTo ((num : ℚ) / den) (nearest num den) where
  representable := by
    rw [nearest_eq]
    exact representable_mul (roundQuotient_range num den).1
  nearest r hr := (abs_sub_nearest_le_abs_sub hden hr).1
  even r hr hne hequal := by
    obtain ⟨hle, hfull⟩ := roundQuotient_range num den
    have hhalf := (abs_sub_nearest_le_abs_sub hden hr).2 hne hequal
    rw [nearest_eq]
    exact even_significand_mul hle hfull ((abs_sub_nearest_le hden num).2 hhalf)

end

end Polarity.Double
