import Mathlib.Order.Basic
import Mathlib.Tactic.ByContra
import Polarity.Assignment
import Polarity.Proofs.Change

/-!
# Consistent assignments

**The representation** (`Consistent`). The two slots of a variable hold opposite phases, and the
counter counts the variables that have a value.

**Making a literal true** (`put`). `assign` takes a consistent assignment in which the literal is
free to `put`, and `unassign` takes it back to exactly what it was: `assign_eq` and `unassign_put`.
All that a search does to an assignment is made of these two steps.
-/

namespace Polarity

/-! ## Slots -/

theorem Literal.slot_inj {k l : Literal} : k.slot = l.slot ↔ k = l := by
  obtain ⟨⟨i⟩, p⟩ := k
  obtain ⟨⟨j⟩, q⟩ := l
  cases p <;> cases q <;> simp [slot] <;> omega

theorem Literal.neg_ne (l : Literal) : -l ≠ l := by
  intro h
  have := congrArg Literal.positive h
  simp at this

theorem Literal.neg_inj {k l : Literal} : -k = -l ↔ k = l :=
  ⟨fun h => by rw [← Literal.neg_neg k, h, Literal.neg_neg], congrArg _⟩

theorem Literal.slot_lt {l : Literal} {n : Nat} : l.slot < 2 * n ↔ l.var.index < n := by
  unfold slot
  split <;> omega

/-- A literal is the positive or the negative literal of its variable. -/
theorem Literal.eq_or_neg_eq (l : Literal) : l = ⟨l.var, true⟩ ∨ -l = ⟨l.var, true⟩ := by
  obtain ⟨v, p⟩ := l
  cases p
  · exact Or.inr rfl
  · exact Or.inl rfl

theorem Literal.eq_or_eq_neg {k l : Literal} (h : k.var = l.var) : k = l ∨ k = -l := by
  obtain ⟨v, p⟩ := k
  obtain ⟨w, q⟩ := l
  obtain rfl : v = w := h
  cases p <;> cases q <;> first | exact Or.inl rfl | exact Or.inr rfl

namespace Assignment

variable {a : Assignment} {k l : Literal} {p : Phase}

/-! ## Consistency -/

/-- The slots of a literal and of its negation hold opposite phases, and the counter counts the
variables with a value. -/
structure Consistent (a : Assignment) : Prop where
  even : a.slots.size = 2 * a.vars
  opposite : ∀ l p, a.value l = .ok p → a.value (-l) = .ok (-p)
  counted : a.assigned = a.varValues.countP Phase.isSet

theorem value_eq_ok_iff : a.value l = .ok p ↔ a.slots[l.slot]? = some p := by
  unfold value entry
  cases a.slots[l.slot]? <;> simp

theorem getElem?_eq_of_value_eq {b : Assignment} (h : a.value k = b.value l) :
    a.slots[k.slot]? = b.slots[l.slot]? := by
  unfold value entry at h
  cases ha : a.slots[k.slot]? <;> cases hb : b.slots[l.slot]? <;> simp [ha, hb] at h ⊢
  exact h

theorem slot_lt_of_value (h : a.value l = .ok p) : l.slot < a.slots.size :=
  (Array.getElem?_eq_some_iff.1 (value_eq_ok_iff.1 h)).1

theorem Consistent.var_lt (ha : a.Consistent) (h : a.value l = .ok p) : l.var.index < a.vars :=
  Literal.slot_lt.1 (ha.even ▸ slot_lt_of_value h)

theorem Consistent.exists_value (ha : a.Consistent) (h : l.var.index < a.vars) :
    ∃ p, a.value l = .ok p := by
  have hl : l.slot < a.slots.size := ha.even ▸ Literal.slot_lt.2 h
  exact ⟨a.slots[l.slot], value_eq_ok_iff.2 (Array.getElem?_eq_getElem hl)⟩

/-- Whether a variable is free does not depend on the literal by which one asks. -/
theorem Consistent.value_unset_of_var (ha : a.Consistent) (h : a.value l = .ok .unset)
    (hk : k.var = l.var) : a.value k = .ok .unset := by
  rcases Literal.eq_or_eq_neg hk with rfl | rfl
  · exact h
  · exact ha.opposite _ _ h

/-! ## Values in the order of the variables -/

@[simp] theorem length_varValues : a.varValues.length = a.vars := by
  simp [varValues]

theorem getElem?_varValues (ha : a.slots.size = 2 * a.vars) (i : Nat) :
    a.varValues[i]? = a.slots[(⟨⟨i⟩, true⟩ : Literal).slot]? := by
  have hs : (⟨⟨i⟩, true⟩ : Literal).slot = 2 * i := rfl
  rw [hs]
  by_cases hi : i < a.vars
  · have : 2 * i < a.slots.size := by rw [ha]; omega
    simp [varValues, List.getElem?_range hi, this]
  · have : ¬ 2 * i < a.slots.size := by rw [ha]; omega
    rw [List.getElem?_eq_none (by simpa using hi), Array.getElem?_eq_none (by omega)]

theorem getElem?_varValues_eq_some_iff (ha : a.Consistent) {v : Variable} :
    a.varValues[v.index]? = some p ↔ a.varValue v = .ok p := by
  rw [getElem?_varValues ha.even, varValue, value_eq_ok_iff]

theorem Consistent.assigned_le (ha : a.Consistent) : a.assigned ≤ a.vars := by
  rw [ha.counted, ← length_varValues]
  exact List.countP_le_length

/-- A free variable is not counted. -/
theorem Consistent.assigned_lt (ha : a.Consistent) (h : a.value l = .ok .unset) :
    a.assigned < a.vars := by
  have hv := (getElem?_varValues_eq_some_iff ha).2
    (ha.value_unset_of_var (k := ⟨l.var, true⟩) h rfl)
  rw [ha.counted, ← length_varValues]
  refine Nat.lt_of_le_of_ne List.countP_le_length fun heq => ?_
  have hset := List.countP_eq_length.1 heq _ (List.mem_of_getElem? hv)
  exact absurd hset (by decide)

theorem Consistent.firstUnassigned_eq_some (ha : a.Consistent) {v : Variable}
    (h : a.firstUnassigned = some v) : a.varValue v = .ok .unset := by
  obtain ⟨i, hi, rfl⟩ := Option.map_eq_some_iff.1 h
  obtain ⟨hlt, hp, -⟩ := List.findIdx?_eq_some_iff_getElem.1 hi
  rw [← getElem?_varValues_eq_some_iff ha, List.getElem?_eq_getElem hlt]
  simpa [Phase.isSet_eq_false_iff] using hp

theorem Consistent.isSet_of_firstUnassigned (ha : a.Consistent) (h : a.firstUnassigned = none)
    (hl : a.value l = .ok p) : p.isSet = true := by
  have hall := List.findIdx?_eq_none_iff.1 (Option.map_eq_none_iff.1 h)
  by_contra hp
  obtain rfl := Phase.isSet_eq_false_iff.1 (Bool.not_eq_true _ ▸ hp)
  have hv := (getElem?_varValues_eq_some_iff ha).2
    (ha.value_unset_of_var (k := ⟨l.var, true⟩) hl rfl)
  have := hall _ (List.mem_of_getElem? hv)
  simp [Phase.isSet] at this

theorem Consistent.assigned_of_firstUnassigned (ha : a.Consistent)
    (h : a.firstUnassigned = none) : a.assigned = a.vars := by
  have hall := List.findIdx?_eq_none_iff.1 (Option.map_eq_none_iff.1 h)
  rw [ha.counted, ← length_varValues, List.countP_eq_length]
  intro p hp
  simpa using hall p hp

/-! ## Nothing assigned -/

/-- So many variables, all free. -/
def blank (n : Nat) : Assignment := { slots := Array.replicate (2 * n) .unset }

@[simp] theorem vars_blank (n : Nat) : (blank n).vars = n := by
  simp [vars, blank]

theorem value_blank_iff {n : Nat} :
    (blank n).value l = .ok p ↔ l.var.index < n ∧ p = .unset := by
  rw [value_eq_ok_iff, blank, Array.getElem?_replicate, ← Literal.slot_lt]
  by_cases h : l.slot < 2 * n <;> simp [h, eq_comm]

theorem varValues_blank (n : Nat) : (blank n).varValues = List.replicate n .unset := by
  refine List.eq_replicate_iff.2 ⟨by simp, fun p hp => ?_⟩
  obtain ⟨i, -, rfl⟩ := List.mem_map.1 hp
  simp only [blank, Array.getD_eq_getD_getElem?, Array.getElem?_replicate]
  split <;> rfl

theorem Consistent.blank (n : Nat) : (blank n).Consistent where
  even := by
    rw [vars_blank]
    exact Array.size_replicate
  opposite l p h := by
    obtain ⟨hl, rfl⟩ := value_blank_iff.1 h
    exact value_blank_iff.2 ⟨hl, rfl⟩
  counted := by
    rw [varValues_blank, List.countP_replicate]
    rfl

/-! ## Making a literal true -/

/-- The assignment with one more literal true. -/
def put (l : Literal) (a : Assignment) : Assignment where
  slots := (a.slots.setIfInBounds l.slot .positive).setIfInBounds (-l).slot .negative
  assigned := a.assigned + 1

@[simp] theorem assigned_put : (a.put l).assigned = a.assigned + 1 := rfl

@[simp] theorem vars_put : (a.put l).vars = a.vars := by
  simp [vars, put]

theorem value_put (ha : a.Consistent) (hl : a.value l = .ok .unset) (k : Literal) :
    (a.put l).value k =
      if k = l then .ok .positive else if k = -l then .ok .negative else a.value k := by
  have h₁ := slot_lt_of_value hl
  have h₂ := slot_lt_of_value (ha.opposite _ _ hl)
  simp only [value, entry, put, Array.getElem?_setIfInBounds, Array.size_setIfInBounds,
    Literal.slot_inj, h₁, h₂, if_true, eq_comm (b := k)]
  by_cases hk : k = l
  · subst hk
    simp [(Literal.neg_ne k).symm]
  · by_cases hn : k = -l
    · subst hn
      simp [Literal.neg_ne]
    · simp [hk, hn]

theorem value_put_self (ha : a.Consistent) (hl : a.value l = .ok .unset) :
    (a.put l).value l = .ok .positive := by
  rw [value_put ha hl, if_pos rfl]

theorem value_put_of_var_ne (ha : a.Consistent) (hl : a.value l = .ok .unset)
    (hk : k.var ≠ l.var) : (a.put l).value k = a.value k := by
  have h₁ : k ≠ l := fun h => hk (congrArg Literal.var h)
  have h₂ : k ≠ -l := fun h => hk (by rw [h, Literal.var_neg])
  rw [value_put ha hl, if_neg h₁, if_neg h₂]

/-- The literals that are true after a step are those before it and the new one. -/
theorem value_put_eq_positive_iff (ha : a.Consistent) (hl : a.value l = .ok .unset) :
    (a.put l).value k = .ok .positive ↔ k = l ∨ a.value k = .ok .positive := by
  rw [value_put ha hl]
  by_cases hk : k = l
  · simp [hk]
  · by_cases hn : k = -l
    · subst hn
      simp [hk, ha.opposite _ _ hl]
    · simp [hk, hn]

theorem varValue_put (ha : a.Consistent) (hl : a.value l = .ok .unset) :
    (a.put l).varValue l.var = .ok (Phase.ofBool l.positive) := by
  rw [varValue, value_put ha hl]
  rcases l.eq_or_neg_eq with h | h
  · rw [if_pos h.symm, h]
    rfl
  · rw [← h, if_neg (Literal.neg_ne l), if_pos rfl]
    have : (-l).positive = true := congrArg Literal.positive h
    rw [Literal.positive_neg, Bool.not_eq_true'] at this
    rw [this]
    rfl

@[simp] theorem size_slots_put : (a.put l).slots.size = a.slots.size := by
  simp [put]

theorem varValues_put (ha : a.Consistent) (hl : a.value l = .ok .unset) :
    (a.put l).varValues = a.varValues.set l.var.index (Phase.ofBool l.positive) := by
  have hlt : l.var.index < a.varValues.length := length_varValues ▸ ha.var_lt hl
  refine List.ext_getElem? fun i => ?_
  rw [getElem?_varValues (by rw [size_slots_put, vars_put, ha.even]), List.getElem?_set]
  by_cases hi : l.var.index = i
  · subst hi
    rw [if_pos rfl, if_pos hlt]
    exact value_eq_ok_iff.1 (varValue_put ha hl)
  · rw [if_neg hi, getElem?_varValues ha.even]
    exact getElem?_eq_of_value_eq
      (value_put_of_var_ne ha hl fun h => hi (congrArg Variable.index h).symm)

theorem Consistent.put (ha : a.Consistent) (hl : a.value l = .ok .unset) :
    (a.put l).Consistent where
  even := by rw [size_slots_put, vars_put, ha.even]
  opposite k p hk := by
    rw [value_put ha hl] at hk ⊢
    by_cases h₁ : k = l
    · subst h₁
      obtain rfl : Phase.positive = p := by simpa using hk
      simp [Literal.neg_ne]
    · by_cases h₂ : k = -l
      · subst h₂
        obtain rfl : Phase.negative = p := by simpa [Literal.neg_ne] using hk
        simp
      · have h₃ : -k ≠ l := fun h => h₂ (by rw [← h, Literal.neg_neg])
        rw [if_neg h₁, if_neg h₂] at hk
        rw [if_neg h₃, if_neg fun h => h₁ (Literal.neg_inj.1 h)]
        exact ha.opposite k p hk
  counted := by
    have hlt : l.var.index < a.varValues.length := length_varValues ▸ ha.var_lt hl
    have hold : a.varValues[l.var.index] = .unset := List.getElem_eq_iff hlt |>.2
      ((getElem?_varValues_eq_some_iff ha).2 (ha.value_unset_of_var hl rfl))
    rw [varValues_put ha hl, List.countP_set hlt, hold, assigned_put, ha.counted]
    simp

theorem assign_eq (ha : a.Consistent) (hl : a.value l = .ok .unset) :
    assign l a = .ok () (a.put l) := by
  have h₁ := slot_lt_of_value hl
  have h₂ := slot_lt_of_value (ha.opposite _ _ hl)
  simp [assign, write, hl, Change.ensure_run, h₁, h₂, put]

/-- Two unset entries that are written, and then unset again in either order, are as before. -/
theorem setIfInBounds_restore {slots : Array Phase} {i j m n : Nat} (hi : slots[i]? = some .unset)
    (hj : slots[j]? = some .unset) (hmn : (m = i ∧ n = j) ∨ (m = j ∧ n = i)) (p q : Phase) :
    (((slots.setIfInBounds i p).setIfInBounds j q).setIfInBounds m .unset).setIfInBounds n .unset =
      slots := by
  refine Array.ext_getElem? fun k => ?_
  have hi' := (Array.getElem?_eq_some_iff.1 hi).1
  have hj' := (Array.getElem?_eq_some_iff.1 hj).1
  simp only [Array.getElem?_setIfInBounds, Array.size_setIfInBounds]
  by_cases hki : i = k
  · subst hki
    rcases hmn with ⟨rfl, rfl⟩ | ⟨rfl, rfl⟩ <;> simp only [hi, hi', hj', if_true, ite_self]
  · by_cases hkj : j = k
    · subst hkj
      rcases hmn with ⟨rfl, rfl⟩ | ⟨rfl, rfl⟩ <;> simp only [hj, hi', hj', if_true, ite_self]
    · rcases hmn with ⟨rfl, rfl⟩ | ⟨rfl, rfl⟩ <;> simp only [hki, hkj, if_false]

/-- **Freeing a literal that was just made true restores the assignment.** -/
theorem unassign_put (ha : a.Consistent) (hl : a.value l = .ok .unset) :
    unassign l.var (a.put l) = .ok (Phase.ofBool l.positive) a := by
  have hv := ha.value_unset_of_var (k := ⟨l.var, true⟩) hl rfl
  have h₁ := slot_lt_of_value hv
  have h₂ := slot_lt_of_value (ha.opposite _ _ hv)
  have hpast := varValue_put ha hl
  rw [varValue] at hpast
  have hslots := setIfInBounds_restore (m := (⟨l.var, true⟩ : Literal).slot)
    (n := (-⟨l.var, true⟩ : Literal).slot) (value_eq_ok_iff.1 hl)
    (value_eq_ok_iff.1 (ha.opposite _ _ hl))
    (by rcases l.eq_or_neg_eq with h | h <;> rw [← h] <;> simp) .positive .negative
  simp [unassign, write, hpast, Change.ensure_run, h₁, h₂]
  exact congrArg (fun slots => { a with slots := slots }) hslots

end Assignment

end Polarity
