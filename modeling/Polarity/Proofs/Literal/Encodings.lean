import Mathlib.Order.Interval.Set.Basic
import Polarity.Proofs.Assignment.Values
import Polarity.Proofs.Formula.Printing

/-!
# Three ways to write a literal

A literal is a variable with a sign, a slot of a table, or a number.

**Slots.** The slots of the literals of `n` variables are the first `2 * n` numbers, each once, and the
two literals of a variable have two neighbouring slots. Literals are ordered as their slots are
(`compare_eq_compare_slot`), so that all that is known of the order of numbers holds of them, and
sorting literals sorts their slots.

**Numbers.** All numbers but zero are numbers of literals, one for each literal (`ofDimacs_number`,
`number_ofDimacs`), and opposite numbers are those of opposite literals. Of the numbers with 32 bits
only the least one has an opposite that has not, and it is the number of the one literal that cannot
be numbered.
-/

namespace Polarity.Literal

variable {l : Literal} {x : Int}

/-! ## Slots -/

/-- The literals of the first `n` variables. -/
def below (n : Nat) : Set Literal := {l | l.var.index < n}

/-- A literal and its negation have the two slots of their variable. -/
theorem slots_of_var (l : Literal) :
    ({l.slot, (-l).slot} : Set Nat) = {2 * l.var.index, 2 * l.var.index + 1} := by
  obtain ⟨v, p⟩ := l
  cases p with
  | true => rfl
  | false => exact Set.pair_comm _ _

theorem exists_slot_eq (i : Nat) : ∃ l : Literal, l.slot = i := by
  rcases Nat.mod_two_eq_zero_or_one i with heven | hodd
  · exact ⟨⟨⟨i / 2⟩, true⟩, show 2 * (i / 2) = i by omega⟩
  · exact ⟨⟨⟨i / 2⟩, false⟩, show 2 * (i / 2) + 1 = i by omega⟩

theorem bijOn_slot (n : Nat) : Set.BijOn slot (below n) (Set.Iio (2 * n)) := by
  refine ⟨fun l hl => slot_lt.2 hl, fun k _ l _ h => slot_inj.1 h, fun i hi => ?_⟩
  obtain ⟨l, rfl⟩ := exists_slot_eq i
  exact ⟨l, slot_lt.1 hi, rfl⟩

/-! ## The order of slots -/

/-- The variable decides before the sign does. -/
theorem slot_lt_slot {k l : Literal} (h : k.var.index < l.var.index) : k.slot < l.slot := by
  unfold slot
  split <;> split <;> omega

theorem compare_slot_of_var (v : Variable) (p q : Bool) :
    Ord.compare (slot ⟨v, p⟩) (slot ⟨v, q⟩) = Ord.compare q p := by
  have hlt : slot ⟨v, true⟩ < slot ⟨v, false⟩ := Nat.lt_succ_self _
  cases p <;> cases q
  · exact Nat.compare_eq_eq.2 rfl
  · exact Nat.compare_eq_gt.2 hlt
  · exact Nat.compare_eq_lt.2 hlt
  · exact Nat.compare_eq_eq.2 rfl

/-- **Literals are ordered as their slots are.** -/
theorem compare_eq_compare_slot (a b : Literal) :
    Ord.compare a b = Ord.compare a.slot b.slot := by
  obtain ⟨⟨i⟩, p⟩ := a
  obtain ⟨⟨j⟩, q⟩ := b
  show (Ord.compare i j).then (Ord.compare q p) = _
  rcases Nat.lt_trichotomy i j with hlt | rfl | hgt
  · rw [Nat.compare_eq_lt.2 hlt, Nat.compare_eq_lt.2 (slot_lt_slot hlt)]
    rfl
  · rw [Nat.compare_eq_eq.2 rfl, compare_slot_of_var]
    rfl
  · rw [Nat.compare_eq_gt.2 hgt, Nat.compare_eq_gt.2 (slot_lt_slot hgt)]
    rfl

theorem precedes_iff {a b : Literal} : precedes a b = true ↔ a.slot ≤ b.slot := by
  rw [precedes, compare_eq_compare_slot, Nat.isLE_compare]

theorem isLinearOrder_precedes : IsLinearOrder Literal (precedes · · = true) where
  refl _ := precedes_iff.2 (Nat.le_refl _)
  trans _ _ _ hab hbc := precedes_iff.2 (Nat.le_trans (precedes_iff.1 hab) (precedes_iff.1 hbc))
  antisymm _ _ hab hba := slot_inj.1 (Nat.le_antisymm (precedes_iff.1 hab) (precedes_iff.1 hba))
  total a b := (Nat.le_total a.slot b.slot).imp precedes_iff.2 precedes_iff.2

theorem map_slot_sorted (literals : List Literal) :
    (sorted literals).map slot = (literals.map slot).mergeSort := by
  refine List.map_mergeSort fun a _ b _ => ?_
  rw [Bool.eq_iff_iff, precedes_iff, decide_eq_true_iff]

/-! ## Numbers -/

theorem ofDimacs_number (l : Literal) : ofDimacs l.number = .ok l := by
  rw [ofDimacs, if_neg l.number_ne_zero]
  exact congrArg Except.ok (Formula.literalOf_number l)

theorem number_neg (l : Literal) : (-l).number = -l.number := by
  obtain ⟨v, p⟩ := l
  cases p with
  | true => rfl
  | false => exact (Int.neg_neg _).symm

/-- Every number but zero is the number of a literal. -/
theorem exists_number_eq (hx : x ≠ 0) : ∃ l : Literal, l.number = x := by
  rcases Int.lt_or_gt_of_ne hx with hneg | hpos
  · refine ⟨⟨⟨x.natAbs - 1⟩, false⟩, ?_⟩
    simp only [number, Bool.false_eq_true, if_false]
    omega
  · refine ⟨⟨⟨x.natAbs - 1⟩, true⟩, ?_⟩
    simp only [number, if_true]
    omega

/-- The variable after the largest one is where 32 bits end. -/
theorem toDimacs_of_limit (h : l.var.index = Variable.limit) :
    l.toDimacs = .error (.fault .overflow) := by
  have hbeyond : ¬ Int.bmod l.var.index 0x100000000 + 1 ≤ Numeral.int32 := by
    rw [h]
    decide +kernel
  unfold toDimacs
  rw [if_neg hbeyond]

/-- The number of a literal that can be numbered has 32 bits. -/
theorem exists_toDimacs_eq (h : l.var.index ≤ Variable.max.index) :
    ∃ x : Int32, l.toDimacs = .ok x.toInt ∧ ofDimacs x.toInt = .ok l := by
  have hmax : Variable.max.index = 0x7FFFFFFE := rfl
  have hlimit : Variable.limit = 0x7FFFFFFF := rfl
  have habs := l.natAbs_number
  obtain ⟨x, hx⟩ : ∃ x : Int32, x.toInt = l.number :=
    ⟨Int32.ofInt l.number, Int32.toInt_ofInt_of_le (by omega) (by omega)⟩
  refine ⟨x, ?_⟩
  rw [hx]
  exact ⟨toDimacs_eq (by omega), ofDimacs_number l⟩

theorem toInt_neg_of_ne {x : Int32} (hx : x ≠ Int32.minValue) : (-x).toInt = -x.toInt := by
  have hleast : x.toInt ≠ -2 ^ 31 := fun h => hx (Int32.toInt_inj.1 h)
  have hlow := x.le_toInt
  have hhigh := x.toInt_lt
  rw [Int32.toInt_neg]
  exact Int.bmod_eq_of_le_mul_two (by omega) (by omega)

/-- **Every number of 32 bits but zero is that of a literal**, whose opposite has the opposite number;
only the least number is not given back. -/
theorem exists_ofDimacs_eq {x : Int32} (hx : x ≠ 0) :
    ∃ l : Literal, ofDimacs x.toInt = .ok l ∧
      (l.toDimacs = .error (.fault .overflow) ↔ x = Int32.minValue) ∧
      (x ≠ Int32.minValue → l.toDimacs = .ok x.toInt ∧ ofDimacs (-x).toInt = .ok (-l) ∧
        l.var.index ≤ Variable.max.index) := by
  have hne : x.toInt ≠ 0 := fun h => hx (Int32.toInt_inj.1 h)
  have hlow := x.le_toInt
  have hhigh := x.toInt_lt
  have hmax : Variable.max.index = 0x7FFFFFFE := rfl
  have hlimit : Variable.limit = 0x7FFFFFFF := rfl
  obtain ⟨l, hl⟩ := exists_number_eq hne
  have habs := l.natAbs_number
  refine ⟨l, hl ▸ ofDimacs_number l, ?_⟩
  by_cases hleast : x = Int32.minValue
  · have hvalue : x.toInt = -2 ^ 31 := congrArg Int32.toInt hleast
    have hover := toDimacs_of_limit (l := l) (by omega)
    exact ⟨iff_of_true hover hleast, fun h => absurd hleast h⟩
  · have hvalue : x.toInt ≠ -2 ^ 31 := fun h => hleast (Int32.toInt_inj.1 h)
    have hback := toDimacs_eq (l := l) (by omega)
    have hnotover : l.toDimacs ≠ .error (.fault .overflow) := by simp [hback]
    refine ⟨iff_of_false hnotover hleast, fun _ => ⟨hl ▸ hback, ?_, by omega⟩⟩
    rw [toInt_neg_of_ne hleast, ← hl, ← number_neg]
    exact ofDimacs_number (-l)

/-! ## All three -/

/-- **The three ways to write a literal agree.** A literal that can be numbered is the one with its
number, and so for numbers but the least one of 32 bits, which is that of a literal without a number.
The slots of the literals of `n` variables are the numbers below `2 * n`, two neighbouring ones for each
variable, and comparing or sorting literals is comparing or sorting slots. -/
theorem encodings_agree :
    (∀ l : Literal, l.var.index ≤ Variable.max.index →
      ∃ x : Int32, l.toDimacs = .ok x.toInt ∧ ofDimacs x.toInt = .ok l) ∧
    (∀ n, Set.BijOn slot (below n) (Set.Iio (2 * n))) ∧
    (∀ l : Literal,
      ({l.slot, (-l).slot} : Set Nat) = {2 * l.var.index, 2 * l.var.index + 1}) ∧
    (∀ a b : Literal, Ord.compare a b = Ord.compare a.slot b.slot) ∧
    (∀ literals, (sorted literals).map slot = (literals.map slot).mergeSort) ∧
    IsLinearOrder Literal (precedes · · = true) ∧
    ∀ x : Int32, x ≠ 0 → ∃ l : Literal, ofDimacs x.toInt = .ok l ∧
      (l.toDimacs = .error (.fault .overflow) ↔ x = Int32.minValue) ∧
      (x ≠ Int32.minValue → l.toDimacs = .ok x.toInt ∧ ofDimacs (-x).toInt = .ok (-l) ∧
        l.var.index ≤ Variable.max.index) :=
  ⟨fun _ h => exists_toDimacs_eq h, bijOn_slot, slots_of_var, compare_eq_compare_slot,
    map_slot_sorted, isLinearOrder_precedes, fun _ h => exists_ofDimacs_eq h⟩

/-- The negative literal of the largest variable has the number next to the least one. -/
theorem encodings_agree_bounds :
    Variable.max.index ≤ Variable.max.index ∧ Int32.minValue ≠ 0 ∧ -Int32.maxValue ≠ 0 ∧
      -Int32.maxValue ≠ Int32.minValue ∧
      (∃ x : Int32, toDimacs ⟨Variable.max, false⟩ = .ok x.toInt ∧
        ofDimacs x.toInt = .ok ⟨Variable.max, false⟩) ∧
      (∃ l : Literal, ofDimacs (-0x80000000) = .ok l ∧ l.toDimacs = .error (.fault .overflow)) ∧
      ∃ l : Literal, ofDimacs (-0x7FFFFFFF) = .ok l ∧ l.toDimacs = .ok (-0x7FFFFFFF) ∧
        ofDimacs 0x7FFFFFFF = .ok (-l) := by
  obtain ⟨hliteral, -, -, -, -, -, hnumber⟩ := encodings_agree
  have hleast : Int32.minValue ≠ 0 := by decide
  have hnext : -Int32.maxValue ≠ 0 := by decide
  have hdiffer : -Int32.maxValue ≠ Int32.minValue := by decide
  obtain ⟨l, hl, hover, -⟩ := hnumber _ hleast
  obtain ⟨m, hm, -, hback⟩ := hnumber _ hnext
  obtain ⟨hto, hneg, -⟩ := hback hdiffer
  exact ⟨Nat.le_refl _, hleast, hnext, hdiffer, hliteral ⟨Variable.max, false⟩ (Nat.le_refl _),
    ⟨l, hl, hover.2 rfl⟩, m, hm, hto, hneg⟩

end Polarity.Literal
