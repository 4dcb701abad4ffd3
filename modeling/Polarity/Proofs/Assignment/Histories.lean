import Polarity.Proofs.Assignment.Updates
import Polarity.Proofs.Solver.Preparation

/-!
# Assignments and their histories

**Operations.** `AssignResult` and `UnassignResult` say all that comes of assigning and freeing on a
consistent assignment: it is refused for a stated reason and changes nothing, or it succeeds and the
new assignment is described value by value. `ResizedTo` says what another number of variables
leaves.

**Histories.** Every operation keeps assignments consistent, also when it is refused. So along every
history (`Assignment.run`) the two slots of a variable are opposite, the counter is the true count,
and the first free variable is the smallest one (`Assignment.Faithful`,
`assignment_stays_faithful`).
-/

namespace Polarity.Assignment

variable {a : Assignment} {l : Literal} {v : Variable} {p : Phase} {n : Nat}

/-! ## Variables with a value -/

/-- The variable has a value. -/
def hasValue (a : Assignment) (v : Variable) : Bool :=
  match a.varValue v with
  | .ok p => p.isSet
  | .error _ => false

theorem hasValue_of_varValue (h : a.varValue v = .ok p) : a.hasValue v = p.isSet := by
  simp [hasValue, h]

/-- A literal has a value when its variable has one. -/
theorem Consistent.hasValue_of_value (ha : a.Consistent) (h : a.value l = .ok p) :
    a.hasValue l.var = p.isSet := by
  rcases l.eq_or_neg_eq with hl | hl
  · exact hasValue_of_varValue (by rw [varValue, ← hl, h])
  · have hneg := ha.opposite _ _ h
    rw [hl] at hneg
    rw [hasValue_of_varValue (v := l.var) hneg, Phase.isSet_neg]

theorem value_of_le (ha : a.Consistent) (h : a.vars ≤ l.var.index) :
    a.value l = .error (.fault .outOfRange) := by
  have hslot : a.slots[l.slot]? = none := by
    refine Array.getElem?_eq_none ?_
    have := mt Literal.slot_lt.1 (Nat.not_lt.2 h)
    rw [ha.even]
    omega
  rw [value, entry, hslot]

theorem Consistent.value_eq_error_iff (ha : a.Consistent) {e : Failure} :
    a.value l = .error e ↔ a.vars ≤ l.var.index ∧ e = .fault .outOfRange := by
  constructor
  · intro h
    rcases Nat.lt_or_ge l.var.index a.vars with hl | hl
    · obtain ⟨p, hp⟩ := ha.exists_value hl
      simp [hp] at h
    · exact ⟨hl, by simpa [value_of_le ha hl, eq_comm] using h⟩
  · rintro ⟨hl, rfl⟩
    exact value_of_le ha hl

theorem Consistent.lt_of_hasValue (ha : a.Consistent) (h : a.hasValue v = true) :
    v.index < a.vars := by
  by_contra hv
  have hvalue : a.varValue v = .error (.fault .outOfRange) := value_of_le ha (Nat.not_lt.1 hv)
  simp [hasValue, hvalue] at h

/-- Whether the first variables have values, in order. -/
theorem Consistent.map_isSet_varValues (ha : a.Consistent) :
    a.varValues.map Phase.isSet = (List.range a.vars).map fun i => a.hasValue ⟨i⟩ := by
  refine List.ext_getElem (by simp) fun i hi _ => ?_
  have hlt : i < a.varValues.length := by simpa using hi
  have hv : a.varValue ⟨i⟩ = .ok a.varValues[i] :=
    (getElem?_varValues_eq_some_iff ha (v := ⟨i⟩)).1 (List.getElem?_eq_getElem hlt)
  simp [hasValue_of_varValue hv]

/-- How many of the first so many variables have a value. -/
def valued (a : Assignment) (n : Nat) : Nat :=
  (List.range n).countP fun i => a.hasValue ⟨i⟩

theorem Consistent.countP_take (ha : a.Consistent) (h : n ≤ a.vars) :
    (a.varValues.take n).countP Phase.isSet = a.valued n := by
  have hmap := congrArg (List.take n) ha.map_isSet_varValues
  rw [← List.map_take, ← List.map_take, List.take_range, Nat.min_eq_left h] at hmap
  have hcount := congrArg (List.countP id) hmap
  rw [List.countP_map, List.countP_map] at hcount
  exact hcount

theorem Consistent.assigned_eq_valued (ha : a.Consistent) : a.assigned = a.valued a.vars := by
  rw [ha.counted, ← ha.countP_take (Nat.le_refl _), List.take_of_length_le (by simp)]

/-! ## The first free variable -/

theorem Consistent.firstUnassigned_eq_some_iff (ha : a.Consistent) :
    a.firstUnassigned = some v ↔
      v.index < a.vars ∧ a.hasValue v = false ∧ ∀ w, w.index < v.index → a.hasValue w = true := by
  have hget (i : Nat) (hi : i < a.varValues.length) :
      a.hasValue ⟨i⟩ = a.varValues[i].isSet := by
    have hv := (getElem?_varValues_eq_some_iff ha (v := ⟨i⟩)).1 (List.getElem?_eq_getElem hi)
    exact hasValue_of_varValue hv
  unfold firstUnassigned
  rw [Option.map_eq_some_iff]
  constructor
  · rintro ⟨i, hi, rfl⟩
    obtain ⟨hlt, hfree, hbefore⟩ := List.findIdx?_eq_some_iff_getElem.1 hi
    refine ⟨by simpa using hlt, ?_, fun w hw => ?_⟩
    · rw [hget i hlt]
      simpa using hfree
    · have hset := hbefore w.index hw
      rw [hget w.index (Nat.lt_trans hw hlt)]
      simpa using hset
  · rintro ⟨hlt, hfree, hbefore⟩
    have hlt' : v.index < a.varValues.length := by simpa using hlt
    refine ⟨v.index, List.findIdx?_eq_some_iff_getElem.2 ⟨hlt', ?_, fun j hj => ?_⟩, rfl⟩
    · rw [← hget v.index hlt', hfree]
      rfl
    · rw [← hget j (Nat.lt_trans hj hlt'), hbefore ⟨j⟩ hj]
      decide

theorem Consistent.firstUnassigned_eq_none_iff (ha : a.Consistent) :
    a.firstUnassigned = none ↔ a.assigned = a.vars := by
  refine ⟨ha.assigned_of_firstUnassigned, fun hfull => ?_⟩
  by_contra hsome
  obtain ⟨v, hv⟩ := Option.ne_none_iff_exists'.1 hsome
  have hlt := ha.assigned_lt (l := ⟨v, true⟩) (ha.firstUnassigned_eq_some hv)
  omega

/-! ## What an operation can do -/

/-- All that comes of making a literal true. -/
inductive AssignResult (l : Literal) (a : Assignment) :
    EStateM.Result Failure Assignment Unit → Prop
  | outside (hvar : a.vars ≤ l.var.index) : AssignResult l a (.error (.fault .outOfRange) a)
  | taken (hvar : l.var.index < a.vars) (hvalue : a.hasValue l.var = true) :
      AssignResult l a (.error (.fault (.alreadyAssigned l)) a)
  | made {b : Assignment} (hvar : l.var.index < a.vars) (free : a.hasValue l.var = false)
      (value : b.value l = .ok .positive) (others : ∀ k, k.var ≠ l.var → b.value k = a.value k)
      (assigned : b.assigned = a.assigned + 1)
      (undo : unassign l.var b = .ok (.ofBool l.positive) a) : AssignResult l a (.ok () b)

/-- All that comes of freeing a variable. -/
inductive UnassignResult (v : Variable) (a : Assignment) :
    EStateM.Result Failure Assignment Phase → Prop
  | outside (hvar : a.vars ≤ v.index) : UnassignResult v a (.error (.fault .outOfRange) a)
  | freed {b : Assignment} {p : Phase} (past : a.varValue v = .ok p) (vars : b.vars = a.vars)
      (value : ∀ k, b.value k = if k.var = v then .ok .unset else a.value k)
      (assigned : a.assigned = b.assigned + if p.isSet then 1 else 0) :
      UnassignResult v a (.ok p b)

/-- The second assignment is the first one with so many variables. -/
structure ResizedTo (n : Nat) (a b : Assignment) : Prop where
  vars : b.vars = n
  kept : ∀ l, l.var.index < min a.vars n → b.value l = a.value l
  fresh : ∀ l, a.vars ≤ l.var.index → l.var.index < n → b.value l = .ok .unset
  assigned : b.assigned = a.valued (min a.vars n)

theorem assign_of_le (ha : a.Consistent) (hl : a.vars ≤ l.var.index) :
    assign l a = .error (.fault .outOfRange) a := by
  simp [assign, value_of_le ha hl]

theorem assign_of_isSet (hp : a.value l = .ok p) (hset : p.isSet = true) :
    assign l a = .error (.fault (.alreadyAssigned l)) a := by
  simp [assign, hp, Change.ensure, hset]

theorem unassign_of_le (ha : a.Consistent) (hv : a.vars ≤ v.index) :
    unassign v a = .error (.fault .outOfRange) a := by
  simp [unassign, value_of_le (l := ⟨v, true⟩) ha hv]

theorem assignResult (ha : a.Consistent) (l : Literal) : AssignResult l a (assign l a) := by
  by_cases hvar : l.var.index < a.vars
  · obtain ⟨p, hp⟩ := ha.exists_value hvar
    have hhas := ha.hasValue_of_value hp
    cases hset : p.isSet with
    | true =>
      rw [assign_of_isSet hp hset]
      exact .taken hvar (hhas.trans hset)
    | false =>
      obtain rfl := Phase.isSet_eq_false_iff.1 hset
      rw [assign_eq ha hp]
      exact .made hvar hhas (value_put_self ha hp) (fun k hk => value_put_of_var_ne ha hp hk)
        assigned_put (unassign_put ha hp)
  · rw [Nat.not_lt] at hvar
    rw [assign_of_le ha hvar]
    exact .outside hvar

theorem unassignResult (ha : a.Consistent) (v : Variable) :
    UnassignResult v a (unassign v a) := by
  by_cases hvar : v.index < a.vars
  · obtain ⟨p, hp⟩ := ha.exists_value (l := ⟨v, true⟩) hvar
    rw [unassign_eq ha hp]
    refine .freed hp vars_freed (value_freed ha hvar) ?_
    cases hset : p.isSet with
    | false => simp [freed, hset]
    | true =>
      -- A variable with a value is counted, so there is something to take away from.
      have hpos : 0 < a.assigned := by
        rw [ha.counted, List.countP_pos_iff]
        exact ⟨p, List.mem_of_getElem? ((getElem?_varValues_eq_some_iff ha).2 hp), hset⟩
      simp only [freed, hset, if_true]
      omega
  · rw [Nat.not_lt] at hvar
    rw [unassign_of_le ha hvar]
    exact .outside hvar

theorem resizedTo_resized (ha : a.Consistent) (n : Nat) : ResizedTo n a (a.resized n) where
  vars := vars_resized
  kept l hl := by
    rw [value_resized ha l (by omega), if_pos (by omega)]
  fresh l hge hlt := by
    rw [value_resized ha l hlt, if_neg (by omega)]
  assigned := by
    have htake : a.varValues.take n = a.varValues.take (min a.vars n) := by
      rw [← length_varValues, List.take_eq_take_min, Nat.min_comm]
    rw [(ha.resized n).counted, varValues_resized ha, List.countP_append, List.countP_replicate,
      htake, ha.countP_take (Nat.min_le_left _ _)]
    simp

/-- Resizing succeeds wherever there is room, and else changes nothing. -/
theorem resize_cases (ha : a.Consistent) (n : Nat) :
    resize n a = .ok () (a.resized n) ∨
      ∃ f, Memory.allow (2 * n) = .error f ∧ resize n a = .error (.fault f) a := by
  cases hroom : Memory.allow (2 * n) with
  | ok size =>
    obtain rfl := Memory.eq_of_allow hroom
    exact Or.inl (resize_eq ha (by simp [slotsFor, hroom, Except.mapError]))
  | error f => exact Or.inr ⟨f, rfl, by simp [resize, slotsFor, hroom, Except.mapError]⟩

theorem resize_of_le (ha : a.Consistent) (hn : n ≤ Variable.limit) :
    resize n a = .ok () (a.resized n) := by
  refine resize_eq ha ?_
  rw [slotsFor, Memory.allow_eq (Memory.lt_limit hn)]
  rfl

/-! ## Histories -/

/-- One operation that changes an assignment. -/
inductive Act where
  | assign (l : Literal)
  | unassign (v : Variable)
  | resize (vars : Nat)

/-- Carry out an operation; the value that a freed variable had is not asked for. -/
def perform : Act → Change Assignment Unit
  | .assign l => assign l
  | .unassign v => do let _ ← unassign v
  | .resize vars => resize vars

/-- Carry out operations one after the other, those that fail included. -/
def run (acts : List Act) (a : Assignment) : Assignment :=
  acts.foldl (fun a act => ((perform act).carry a).state) a

/-- **Every operation keeps assignments consistent**, also when it is refused. -/
theorem keeps_consistent_perform (act : Act) : Change.Keeps Consistent (perform act) := by
  intro a ha
  cases act with
  | assign l => exact (keeps_spans_assign l a ⟨ha, rfl⟩).1
  | unassign v =>
    have hkeeps : Change.Keeps (Spans a.vars) (perform (.unassign v)) :=
      (keeps_spans_unassign v).bind fun _ => Change.keeps_pure ()
    exact (hkeeps a ⟨ha, rfl⟩).1
  | resize n =>
    rcases resize_cases ha n with h | ⟨f, -, h⟩
    · simpa [Change.carry, perform, h] using ha.resized n
    · simpa [Change.carry, perform, h] using ha

theorem Consistent.run (ha : a.Consistent) (acts : List Act) : (run acts a).Consistent := by
  induction acts generalizing a with
  | nil => exact ha
  | cons act later ih => exact ih (keeps_consistent_perform act a ha)

/-- All that is known about an assignment from its representation: what its slots hold, what its
counter counts, which variable is the first that is free, and what each operation does to it. -/
structure Faithful (a : Assignment) : Prop where
  size : a.slots.size = 2 * a.vars
  opposite : ∀ l, l.var.index < a.vars →
    ∃ p, a.value l = .ok p ∧ a.value (-l) = .ok (-p) ∧ a.hasValue l.var = p.isSet
  assigned : a.assigned = a.valued a.vars
  assigned_le : a.assigned ≤ a.vars
  first : ∀ v, a.firstUnassigned = some v ↔
    v.index < a.vars ∧ a.hasValue v = false ∧ ∀ w, w.index < v.index → a.hasValue w = true
  full : a.firstUnassigned = none ↔ a.assigned = a.vars
  assign : ∀ l, AssignResult l a (assign l a)
  unassign : ∀ v, UnassignResult v a (unassign v a)
  resize : ∀ n, (∃ b, resize n a = .ok () b ∧ ResizedTo n a b) ∨
    Variable.limit < n ∧ ∃ f, resize n a = .error (.fault f) a

theorem Consistent.faithful (ha : a.Consistent) : a.Faithful where
  size := ha.even
  opposite l hl := by
    obtain ⟨p, hp⟩ := ha.exists_value hl
    exact ⟨p, hp, ha.opposite l p hp, ha.hasValue_of_value hp⟩
  assigned := ha.assigned_eq_valued
  assigned_le := ha.assigned_le
  first _ := ha.firstUnassigned_eq_some_iff
  full := ha.firstUnassigned_eq_none_iff
  assign := assignResult ha
  unassign := unassignResult ha
  resize n := by
    rcases Nat.lt_or_ge Variable.limit n with hn | hn
    · rcases resize_cases ha n with h | ⟨f, -, h⟩
      · exact Or.inl ⟨a.resized n, h, resizedTo_resized ha n⟩
      · exact Or.inr ⟨hn, f, h⟩
    · exact Or.inl ⟨a.resized n, resize_of_le ha hn, resizedTo_resized ha n⟩

/-- **Assignments stay faithful.** A new assignment has all its variables free, and whatever is done
to it, also by operations that are refused, its slots, its counter and its first free variable say
the same about it. -/
theorem assignment_stays_faithful (hn : n ≤ Variable.limit) :
    ∃ a, free n = .ok a ∧ a.vars = n ∧ (∀ v, a.hasValue v = false) ∧
      ∀ acts, (run acts a).Faithful := by
  have hfree : free n = .ok (blank n) := by
    rw [free, slotsFor, Memory.allow_eq (Memory.lt_limit hn)]
    rfl
  have hblank : (blank n).Consistent := .blank n
  refine ⟨blank n, hfree, vars_blank n, fun v => ?_, fun acts => (hblank.run acts).faithful⟩
  rw [← Bool.not_eq_true]
  intro hv
  have hlt := hblank.lt_of_hasValue hv
  rw [vars_blank] at hlt
  have hunset : (blank n).varValue v = .ok .unset := value_blank_iff.2 ⟨hlt, rfl⟩
  rw [hasValue_of_varValue hunset] at hv
  cases hv

theorem assignment_stays_faithful_three :
    3 ≤ Variable.limit ∧ ∃ a, free 3 = .ok a ∧
      (run [.assign ⟨⟨0⟩, true⟩, .assign ⟨⟨2⟩, false⟩, .assign ⟨⟨2⟩, true⟩, .resize 2, .resize 4]
        a).Faithful := by
  have hn : 3 ≤ Variable.limit := by decide
  obtain ⟨a, ha, -, -, hfaithful⟩ := assignment_stays_faithful hn
  exact ⟨hn, a, ha, hfaithful _⟩

end Polarity.Assignment
