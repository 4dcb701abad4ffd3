import Polarity.Proofs.Assignment.Values
import Polarity.Proofs.Change.Keeping

/-!
# Updates of an assignment

**Freeing** (`freed`) is what `unassign` does to any variable, whether or not it has a value, and
**resizing** (`resized`) is what `resize` does. With `put` these are all the updates there are.
`assign_cases` and `unassign_cases` say that an operation on a consistent assignment makes its
update or fails and changes nothing, and `resize_eq` that resizing succeeds wherever there is room
for the slots. So every operation keeps assignments consistent.
-/

namespace Polarity.Assignment

variable {a : Assignment} {k l : Literal} {v : Variable} {p : Phase} {n : Nat}

/-- Two consistent assignments with the same values are the same. -/
theorem Consistent.ext {b : Assignment} (ha : a.Consistent) (hb : b.Consistent)
    (hvars : a.vars = b.vars) (h : ∀ l, a.value l = b.value l) : a = b := by
  have hslots : a.slots = b.slots := by
    refine Array.ext_getElem? fun i => ?_
    -- Each slot is the slot of some literal.
    obtain ⟨l, rfl⟩ : ∃ l : Literal, l.slot = i := by
      refine ⟨⟨⟨i / 2⟩, i % 2 = 0⟩, ?_⟩
      by_cases hi : i % 2 = 0 <;> simp only [Literal.slot, hi, decide_true, decide_false, if_true,
        Bool.false_eq_true, if_false] <;> omega
    exact getElem?_eq_of_value_eq (h l)
  have hassigned : a.assigned = b.assigned := by
    rw [ha.counted, hb.counted]
    unfold varValues
    rw [hslots, hvars]
  cases a
  cases b
  exact congrArg₂ Assignment.mk hslots hassigned

theorem Consistent.varValue_lt (ha : a.Consistent) (h : a.varValue v = .ok p) :
    v.index < a.vars := ha.var_lt h

theorem assign_cases (ha : a.Consistent) (l : Literal) :
    (a.value l = .ok .unset ∧ assign l a = .ok () (a.put l)) ∨ ∃ e, assign l a = .error e a := by
  cases h : a.value l with
  | error e => exact Or.inr ⟨e, by simp [assign, h]⟩
  | ok p =>
    by_cases hp : p.isSet = false
    · obtain rfl := Phase.isSet_eq_false_iff.1 hp
      exact Or.inl ⟨rfl, assign_eq ha h⟩
    · exact Or.inr ⟨.fault (.alreadyAssigned l), by simp [assign, h, Change.ensure, hp]⟩

/-! ## Freeing -/

/-- The assignment with a variable free that had the value `p`. -/
def freed (v : Variable) (p : Phase) (a : Assignment) : Assignment where
  slots := (a.slots.setIfInBounds (⟨v, true⟩ : Literal).slot .unset).setIfInBounds
    (-⟨v, true⟩ : Literal).slot .unset
  assigned := if p.isSet then a.assigned - 1 else a.assigned

@[simp] theorem size_slots_freed : (a.freed v p).slots.size = a.slots.size := by
  simp [freed]

@[simp] theorem vars_freed : (a.freed v p).vars = a.vars := by
  simp [vars]

theorem value_freed (ha : a.Consistent) (hv : v.index < a.vars) (k : Literal) :
    (a.freed v p).value k = if k.var = v then .ok .unset else a.value k := by
  have h₁ : (⟨v, true⟩ : Literal).slot < a.slots.size := ha.even ▸ Literal.slot_lt.2 hv
  have h₂ : (-⟨v, true⟩ : Literal).slot < a.slots.size := ha.even ▸ Literal.slot_lt.2 hv
  simp only [value, entry, freed, Array.getElem?_setIfInBounds, Array.size_setIfInBounds,
    Literal.slot_inj, h₁, h₂, if_true]
  by_cases hk : k.var = v
  · rw [if_pos hk]
    rcases Literal.eq_or_eq_neg (l := ⟨v, true⟩) hk with rfl | rfl
    · simp [Literal.neg_ne]
    · simp
  · have hpos : ⟨v, true⟩ ≠ k := fun h => hk (by rw [← h])
    have hneg : -⟨v, true⟩ ≠ k := fun h => hk (by rw [← h, Literal.var_neg])
    rw [if_neg hk, if_neg hneg, if_neg hpos]

theorem varValues_freed (ha : a.Consistent) (hv : v.index < a.vars) :
    (a.freed v p).varValues = a.varValues.set v.index .unset := by
  refine List.ext_getElem? fun i => ?_
  have hi : (a.freed v p).varValues[i]? = (a.freed v p).slots[(⟨⟨i⟩, true⟩ : Literal).slot]? :=
    getElem?_varValues (by rw [size_slots_freed, vars_freed, ha.even]) i
  have hlt : v.index < a.varValues.length := length_varValues ▸ hv
  rw [hi, List.getElem?_set]
  by_cases h : v.index = i
  · subst h
    rw [if_pos rfl, if_pos hlt]
    exact value_eq_ok_iff.1 ((value_freed ha hv _).trans (if_pos rfl))
  · rw [if_neg h, getElem?_varValues ha.even]
    refine getElem?_eq_of_value_eq ((value_freed ha hv _).trans (if_neg fun hv => h ?_))
    rw [← hv]

theorem Consistent.freed (ha : a.Consistent) (h : a.varValue v = .ok p) :
    (a.freed v p).Consistent where
  even := by rw [size_slots_freed, vars_freed, ha.even]
  opposite k q hk := by
    have hv := ha.varValue_lt h
    rw [value_freed ha hv] at hk
    rw [value_freed ha hv, Literal.var_neg]
    by_cases hkv : k.var = v
    · rw [if_pos hkv] at hk ⊢
      obtain rfl : Phase.unset = q := by simpa using hk
      rfl
    · rw [if_neg hkv] at hk ⊢
      exact ha.opposite k q hk
  counted := by
    have hv := ha.varValue_lt h
    have hlt : v.index < a.varValues.length := length_varValues ▸ hv
    have hold : a.varValues[v.index] = p :=
      List.getElem_eq_iff hlt |>.2 ((getElem?_varValues_eq_some_iff ha).2 h)
    rw [varValues_freed ha hv, List.countP_set hlt, hold, Assignment.freed, ha.counted]
    cases hp : p.isSet <;> simp

theorem unassign_eq (ha : a.Consistent) (h : a.varValue v = .ok p) :
    unassign v a = .ok p (a.freed v p) := by
  have hv := ha.varValue_lt h
  have h₁ : (⟨v, true⟩ : Literal).slot < a.slots.size := ha.even ▸ Literal.slot_lt.2 hv
  have h₂ : (-⟨v, true⟩ : Literal).slot < a.slots.size := ha.even ▸ Literal.slot_lt.2 hv
  have hpast : a.value ⟨v, true⟩ = .ok p := h
  cases hp : p.isSet with
  | false => simp [unassign, write, hpast, Change.ensure_run, h₁, h₂, hp, freed]
  | true =>
    have hpos : 0 < a.assigned := by
      rw [ha.counted, List.countP_pos_iff]
      exact ⟨p, List.mem_of_getElem? ((getElem?_varValues_eq_some_iff ha).2 h), hp⟩
    simp [unassign, write, hpast, Change.ensure_run, h₁, h₂, hp, hpos, freed]

theorem unassign_cases (ha : a.Consistent) (v : Variable) :
    (∃ p, a.varValue v = .ok p ∧ unassign v a = .ok p (a.freed v p)) ∨
      ∃ e, unassign v a = .error e a := by
  cases h : a.varValue v with
  | ok p => exact Or.inl ⟨p, rfl, unassign_eq ha h⟩
  | error e =>
    have hvalue : a.value ⟨v, true⟩ = .error e := h
    exact Or.inr ⟨e, by simp [unassign, hvalue]⟩

/-! ## Resizing -/

/-- The assignment cut or extended to so many variables. -/
def resized (n : Nat) (a : Assignment) : Assignment where
  slots := a.slots.extract 0 (2 * n) ++ Array.replicate (2 * n - a.slots.size) .unset
  assigned := a.assigned - (a.varValues.drop n).countP Phase.isSet

theorem size_slots_resized : (a.resized n).slots.size = 2 * n := by
  simp [resized]
  omega

@[simp] theorem vars_resized : (a.resized n).vars = n := by
  simp [vars, size_slots_resized]

theorem value_resized (ha : a.Consistent) (l : Literal) (h : l.var.index < n) :
    (a.resized n).value l = if l.var.index < a.vars then a.value l else .ok .unset := by
  have hslot : l.slot < 2 * n := Literal.slot_lt.2 h
  have hold : l.slot < a.slots.size ↔ l.var.index < a.vars := by rw [ha.even, Literal.slot_lt]
  by_cases hl : l.var.index < a.vars
  · have hlt := hold.2 hl
    rw [if_pos hl]
    simp only [value, entry, resized, Array.getElem?_append, Array.size_extract,
      Array.getElem?_extract]
    rw [if_pos (by omega), if_pos (by omega), Nat.zero_add]
  · have hge : ¬ l.slot < a.slots.size := fun hlt => hl (hold.1 hlt)
    rw [if_neg hl, value_eq_ok_iff, resized, Array.getElem?_append_right (by simp; omega),
      Array.getElem?_replicate, if_pos (by simp; omega)]

theorem varValues_resized (ha : a.Consistent) :
    (a.resized n).varValues = a.varValues.take n ++ List.replicate (n - a.vars) .unset := by
  refine List.ext_getElem? fun i => ?_
  rw [getElem?_varValues (by rw [size_slots_resized, vars_resized]), List.getElem?_append,
    List.getElem?_take, List.length_take, length_varValues, List.getElem?_replicate]
  by_cases hi : i < n
  · by_cases hv : i < a.vars
    · rw [if_pos (by omega), if_pos hi, getElem?_varValues ha.even]
      exact getElem?_eq_of_value_eq ((value_resized ha ⟨⟨i⟩, true⟩ hi).trans (if_pos hv))
    · rw [if_neg (by omega), if_pos (by omega)]
      exact value_eq_ok_iff.1 ((value_resized ha ⟨⟨i⟩, true⟩ hi).trans (if_neg hv))
  · have hslot : 2 * n ≤ (⟨⟨i⟩, true⟩ : Literal).slot := Nat.mul_le_mul_left 2 (Nat.not_lt.1 hi)
    rw [Array.getElem?_eq_none (by rwa [size_slots_resized]), if_neg (by omega),
      if_neg (by omega)]

/-- No more values are lost than there are. -/
theorem Consistent.lost_le (ha : a.Consistent) :
    (a.varValues.drop n).countP Phase.isSet ≤ a.assigned := by
  rw [ha.counted]
  exact List.Sublist.countP_le (List.drop_sublist n _)

theorem Consistent.resized (ha : a.Consistent) (n : Nat) : (a.resized n).Consistent where
  even := by rw [size_slots_resized, vars_resized]
  opposite l q hl := by
    have hlt : l.var.index < n := by
      have := slot_lt_of_value hl
      rwa [size_slots_resized, Literal.slot_lt] at this
    have hneg : (-l).var.index < n := hlt
    rw [value_resized ha l hlt] at hl
    rw [value_resized ha (-l) hneg, Literal.var_neg]
    by_cases hv : l.var.index < a.vars
    · rw [if_pos hv] at hl ⊢
      exact ha.opposite l q hl
    · rw [if_neg hv] at hl ⊢
      obtain rfl : Phase.unset = q := by simpa using hl
      rfl
  counted := by
    have hsplit : a.varValues.countP Phase.isSet =
        (a.varValues.take n).countP Phase.isSet + (a.varValues.drop n).countP Phase.isSet := by
      rw [← List.countP_append, List.take_append_drop]
    rw [varValues_resized ha, List.countP_append, List.countP_replicate, Assignment.resized,
      ha.counted, hsplit]
    simp

theorem resize_eq (ha : a.Consistent) (h : slotsFor n = .ok (2 * n)) :
    resize n a = .ok () (a.resized n) := by
  simp [resize, h, Change.ensure_run ha.lost_le, resized]

/-! ## Consistency is kept -/

/-- The assignment is consistent and has so many variables. -/
def Spans (n : Nat) (a : Assignment) : Prop := a.Consistent ∧ a.vars = n

theorem keeps_spans_assign (l : Literal) : Change.Keeps (Spans n) (assign l) := by
  intro a ⟨ha, hn⟩
  rcases assign_cases ha l with ⟨hl, h⟩ | ⟨e, h⟩
  · rw [Change.carry, h]
    exact ⟨ha.put hl, vars_put.trans hn⟩
  · rw [Change.carry, h]
    exact ⟨ha, hn⟩

theorem keeps_spans_unassign (v : Variable) : Change.Keeps (Spans n) (unassign v) := by
  intro a ⟨ha, hn⟩
  rcases unassign_cases ha v with ⟨p, hv, h⟩ | ⟨e, h⟩
  · rw [Change.carry, h]
    exact ⟨ha.freed hv, vars_freed.trans hn⟩
  · rw [Change.carry, h]
    exact ⟨ha, hn⟩

end Polarity.Assignment
