import Mathlib.Algebra.Order.Floor.Semiring
import Mathlib.Data.Rat.Floor
import Polarity.Proofs.Double.Rounding
import Polarity.Text.Numeral

/-!
# Values of doubles

The finite doubles are the representable numbers of units below the first one that is too large, with
either sign (`exists_ofBits_iff`).

**Arithmetic.** A natural number of 64 bits is rounded to a finite double, and the product of two
doubles is the rounded product of their values, or infinite. The least natural number that is not
less than such a product is in either case that of the rounded product, if it is cut off at a limit
below the infinite (`ceilNat_ofUnits`).
-/

namespace Polarity.Double

variable {u num den limit : Nat} {bits : UInt64} {d : Double} {x : ℚ} {s : Bool}

/-! ## Bit patterns -/

theorem ceiling_eq : ceiling = 2 ^ 53 * 2 ^ 2045 := by decide +kernel

theorem lt_ceiling_iff : u < ceiling ↔ lastBit u ≤ 2045 := by
  rw [lastBit_le_iff, ceiling_eq]

theorem lt_ceiling {m e : Nat} (hm : m < 2 ^ 53) (he : e ≤ 2045) : m * 2 ^ e < ceiling :=
  lt_ceiling_iff.2 ((lastBit_mul_le hm).trans he)

theorem finite_of_ofBits (h : ofBits bits = finite s u) : Representable u ∧ u < ceiling := by
  have hhidden : hiddenBit = 2 ^ 52 := rfl
  have hfraction : bits.toNat % hiddenBit < 2 ^ 52 := Nat.mod_lt _ (by decide)
  have hexponent : (bits.toNat >>> 52) % 0x800 < 0x800 := Nat.mod_lt _ (by decide)
  simp only [ofBits] at h
  split at h
  · split at h <;> cases h
  · next hfinite =>
    split at h
    · cases h
      have hm : bits.toNat % hiddenBit < 2 ^ 53 := Nat.lt_trans hfraction (by decide)
      have hbelow := lt_ceiling hm (Nat.zero_le _)
      rw [Nat.pow_zero, Nat.mul_one] at hbelow
      exact ⟨⟨_, 0, hm, (Nat.mul_one _).symm⟩, hbelow⟩
    · cases h
      have hm : hiddenBit + bits.toNat % hiddenBit < 2 ^ 53 := by omega
      exact ⟨⟨_, _, hm, rfl⟩, lt_ceiling hm (by omega)⟩

/-- A sign, an exponent and a fraction have a bit pattern. -/
theorem exists_bits (s : Bool) {exponent fraction : Nat} (hexponent : exponent < 0x800)
    (hfraction : fraction < hiddenBit) :
    ∃ bits : UInt64, decide (bits.toNat >>> 63 = 1) = s ∧
      (bits.toNat >>> 52) % 0x800 = exponent ∧ bits.toNat % hiddenBit = fraction := by
  have hhidden : hiddenBit = 0x10000000000000 := rfl
  have hsign := s.toNat_lt
  refine ⟨.ofNat (s.toNat * 2 ^ 63 + exponent * 2 ^ 52 + fraction), ?_⟩
  rw [UInt64.toNat_ofNat_of_lt' (by simp only [UInt64.size]; omega), Nat.shiftRight_eq_div_pow,
    Nat.shiftRight_eq_div_pow]
  refine ⟨?_, by omega, by rw [hhidden]; omega⟩
  have hquotient : (s.toNat * 2 ^ 63 + exponent * 2 ^ 52 + fraction) / 2 ^ 63 = s.toNat := by omega
  rw [hquotient]
  cases s <;> rfl

/-- **The finite doubles** are the representable numbers below the first one that is too large. -/
theorem exists_ofBits_iff :
    (∃ bits, ofBits bits = finite s u) ↔ Representable u ∧ u < ceiling := by
  constructor
  · rintro ⟨bits, hbits⟩
    exact finite_of_ofBits hbits
  · rintro ⟨hu, hbelow⟩
    have hhidden : hiddenBit = 2 ^ 52 := rfl
    rcases Nat.lt_or_ge u hiddenBit with hsmall | hlarge
    · obtain ⟨bits, hsign, hexponent, hfraction⟩ := exists_bits s (by decide : 0 < 0x800) hsmall
      refine ⟨bits, ?_⟩
      simp [ofBits, hsign, hexponent, hfraction]
    · have hlast := lt_ceiling_iff.1 hbelow
      have hlt := significand_lt u
      have hge : hiddenBit ≤ significand u := by
        rcases lastBit_eq_zero_or_le_significand u with hzero | hge
        · rwa [significand, hzero, Nat.pow_zero, Nat.div_one]
        · exact hge
      have hsum : hiddenBit + (significand u - hiddenBit) = significand u := by omega
      obtain ⟨bits, hsign, hexponent, hfraction⟩ :=
        exists_bits s (by omega : lastBit u + 1 < 0x800)
          (by omega : significand u - hiddenBit < hiddenBit)
      have hne : lastBit u + 1 ≠ 2047 := by omega
      refine ⟨bits, ?_⟩
      simp [ofBits, hsign, hexponent, hfraction, hne, hsum, (representable_iff.1 hu).symm]

/-- A pattern with its highest bit is that of no number above zero. -/
theorem isPositive_ofBits (h : 2 ^ 63 ≤ bits.toNat) : (ofBits bits).isPositive = false := by
  have hsign : bits.toNat >>> 63 = 1 := by
    have := bits.toNat_lt
    rw [Nat.shiftRight_eq_div_pow]
    omega
  simp only [ofBits, hsign, decide_true]
  split
  · split <;> rfl
  · split <;> rfl

/-! ## Values -/

/-- The value of a finite double. -/
def value? : Double → Option ℚ
  | finite negative units => some (if negative then -(units / one) else units / one)
  | _ => none

theorem exists_one_eq : ∃ e, one = 2 ^ e := ⟨1074, by decide +kernel⟩

theorem one_pos : 0 < one := by decide +kernel

theorem cast_one_pos : (0 : ℚ) < one := Nat.cast_pos.2 one_pos

theorem div_one_nonneg (u : Nat) : (0 : ℚ) ≤ u / one :=
  div_nonneg (Nat.cast_nonneg u) cast_one_pos.le

theorem exists_units_of_value? (h : d.value? = some x) (hx : 0 ≤ x) :
    ∃ s u, d = finite s u ∧ x = u / one ∧ (0 < x → s = false) := by
  cases d with
  | nan => cases h
  | infinite negative => cases h
  | finite negative u =>
    obtain rfl := Option.some.inj h
    cases negative with
    | false => exact ⟨false, u, rfl, rfl, fun _ => rfl⟩
    | true =>
      simp only [if_true] at hx ⊢
      have hzero : (u : ℚ) / one = 0 := le_antisymm (by linarith) (div_one_nonneg u)
      have hnot : ¬ 0 < -((u : ℚ) / one) := by rw [hzero, neg_zero]; exact lt_irrefl 0
      exact ⟨true, u, rfl, by rw [hzero, neg_zero], fun hpos => absurd hpos hnot⟩

theorem isPositive_iff (h : d.value? = some x) : d.isPositive = true ↔ 0 < x := by
  cases d with
  | nan => cases h
  | infinite negative => cases h
  | finite negative u =>
    obtain rfl := Option.some.inj h
    cases negative with
    | false =>
      rw [if_neg Bool.false_ne_true, div_pos_iff_of_pos_right cast_one_pos, Nat.cast_pos]
      simp [isPositive]
    | true =>
      rw [if_pos rfl]
      exact iff_of_false (by simp [isPositive]) (not_lt.2 (neg_nonpos.2 (div_one_nonneg u)))

/-! ## Arithmetic -/

theorem ofUnits_of_lt (s : Bool) (h : nearest num den < ceiling) :
    ofUnits s num den = finite s (nearest num den) := by
  simp only [ofUnits, h, if_true]

theorem ofUnits_of_le (s : Bool) (h : ceiling ≤ nearest num den) :
    ofUnits s num den = infinite s := by
  simp only [ofUnits, Nat.not_lt.2 h, if_false]

theorem representable_mul_one {n : Nat} (hn : n ≤ 2 ^ 53) : Representable (n * one) := by
  obtain ⟨e, he⟩ := exists_one_eq
  rw [he]
  exact representable_mul hn

/-- A natural number of 64 bits is rounded to a finite double. -/
theorem exists_ofNat_eq {n : Nat} (hn : n ≤ Numeral.word) :
    ∃ a, RoundsTo (n * one) a ∧ ofNat n = finite false a := by
  have hrounds : RoundsTo (n * one) (nearest (n * one) 1) := by
    have h : RoundsTo ((n * one : Nat) / (1 : Nat)) (nearest (n * one) 1) :=
      roundsTo_nearest Nat.one_pos
    rwa [Nat.cast_one, div_one, Nat.cast_mul] at h
  have hlimit : Representable (2 ^ 64 * one) := by
    obtain ⟨e, he⟩ := exists_one_eq
    exact ⟨1, 64 + e, by decide, by rw [he, Nat.one_mul, Nat.pow_add]⟩
  have hle : nearest (n * one) 1 ≤ 2 ^ 64 * one := by
    refine hrounds.mono (.self hlimit) ?_
    have hword : n ≤ 2 ^ 64 := hn.trans (by decide)
    exact_mod_cast Nat.mul_le_mul_right one hword
  have hbelow : nearest (n * one) 1 < ceiling := hle.trans_lt (by decide +kernel)
  exact ⟨_, hrounds, ofUnits_of_lt false hbelow⟩

/-- The product of finite doubles is their rounded product. -/
theorem roundsTo_mul (a u : Nat) : RoundsTo (a * (u / one)) (nearest (a * u) one) := by
  have h : RoundsTo ((a * u : Nat) / one) (nearest (a * u) one) := roundsTo_nearest one_pos
  rwa [Nat.cast_mul, mul_div_assoc] at h

theorem ceilNat_finite (limit u : Nat) :
    (finite false u).ceilNat limit = min limit ⌈(u : ℚ) / one⌉₊ := by
  have hceil : (u + (one - 1)) / one = ⌈(u : ℚ) / one⌉₊ := by
    refine eq_of_forall_ge_iff fun n => ?_
    rw [Nat.ceil_le, div_le_iff₀ cast_one_pos, ← Nat.lt_succ_iff,
      Nat.div_lt_iff_lt_mul one_pos, Nat.succ_mul]
    have hpos := one_pos
    constructor
    · intro h
      exact_mod_cast (by omega : u ≤ n * one)
    · intro h
      have h' : u ≤ n * one := by exact_mod_cast h
      omega
  exact congrArg (min limit) hceil

theorem ceilNat_le (limit : Nat) (d : Double) : d.ceilNat limit ≤ limit := by
  unfold ceilNat
  split
  · exact Nat.min_le_left _ _
  · exact Nat.le_refl _
  · exact Nat.zero_le _

/-- **The least natural number not below a rounded quotient**, which can be infinite. -/
theorem ceilNat_ofUnits (hlimit : limit * one ≤ ceiling) (num den : Nat) :
    (ofUnits false num den).ceilNat limit = min limit ⌈(nearest num den : ℚ) / one⌉₊ := by
  rcases Nat.lt_or_ge (nearest num den) ceiling with hbelow | hbeyond
  · rw [ofUnits_of_lt false hbelow, ceilNat_finite]
  · have hle : limit ≤ ⌈(nearest num den : ℚ) / one⌉₊ := by
      have hquotient : (limit : ℚ) ≤ (nearest num den : ℚ) / one := by
        rw [le_div_iff₀ cast_one_pos]
        exact_mod_cast hlimit.trans hbeyond
      exact_mod_cast hquotient.trans (Nat.le_ceil _)
    rw [ofUnits_of_le false hbeyond, Nat.min_eq_left hle, ceilNat]

/-! ## What is not above zero -/

theorem ofUnits_cases (s : Bool) (num den : Nat) :
    ofUnits s num den = finite s (nearest num den) ∨ ofUnits s num den = infinite s :=
  (Nat.lt_or_ge (nearest num den) ceiling).imp (ofUnits_of_lt s) (ofUnits_of_le s)

theorem nearest_zero (hden : 0 < den) : nearest 0 den = 0 := by
  have hzero : Representable 0 := ⟨0, 0, by decide, rfl⟩
  have hrounds : RoundsTo ((0 : Nat) / den) (nearest 0 den) := roundsTo_nearest hden
  rw [Nat.cast_zero, zero_div] at hrounds
  have hself : RoundsTo 0 0 := by simpa using RoundsTo.self hzero
  exact hrounds.unique hself

theorem ofUnits_zero (s : Bool) (hden : 0 < den) : ofUnits s 0 den = finite s 0 := by
  have hbelow : nearest 0 den < ceiling := by
    rw [nearest_zero hden]
    decide +kernel
  rw [ofUnits_of_lt s hbelow, nearest_zero hden]

theorem isPositive_ofUnits_true (num den : Nat) : (ofUnits true num den).isPositive = false := by
  rcases ofUnits_cases true num den with h | h <;> rw [h] <;> rfl

/-- The doubles that are not above zero. -/
theorem cases_of_not_positive (h : d.isPositive = false) :
    d = nan ∨ d = infinite true ∨ (∃ u, d = finite true u) ∨ d = finite false 0 := by
  cases d with
  | nan => exact .inl rfl
  | infinite negative =>
    obtain rfl : negative = true := by simpa [isPositive] using h
    exact .inr (.inl rfl)
  | finite negative u =>
    cases negative with
    | true => exact .inr (.inr (.inl ⟨u, rfl⟩))
    | false =>
      obtain rfl : u = 0 := by simpa [isPositive] using h
      exact .inr (.inr (.inr rfl))

/-- **A product with what is not above zero** is not above zero, or no number. -/
theorem isPositive_mul (num den : Nat) (h : d.isPositive = false) :
    ((ofUnits false num den).mul d).isPositive = false := by
  rcases cases_of_not_positive h with rfl | rfl | ⟨u, rfl⟩ | rfl
  · rcases ofUnits_cases false num den with hc | hc <;> rw [hc] <;> rfl
  · rcases ofUnits_cases false num den with hc | hc <;> rw [hc, mul]
    · split <;> rfl
    · rfl
  · rcases ofUnits_cases false num den with hc | hc <;> rw [hc, mul]
    · exact isPositive_ofUnits_true _ _
    · split <;> rfl
  · rcases ofUnits_cases false num den with hc | hc <;> rw [hc, mul]
    · rw [Nat.mul_zero, ofUnits_zero _ one_pos]
      rfl
    · rfl

theorem ceilNat_of_not_positive (limit : Nat) (h : d.isPositive = false) : d.ceilNat limit = 0 := by
  rcases cases_of_not_positive h with rfl | rfl | ⟨u, rfl⟩ | rfl
  · rfl
  · rfl
  · rfl
  · rw [ceilNat_finite, Nat.cast_zero, zero_div, Nat.ceil_zero, Nat.min_zero]

end Polarity.Double
