import Polarity.Proofs.Assignment.Updates
import Polarity.Proofs.Phases.Saving
import Polarity.Search.Run

/-!
# Mirror images

Turning every sign into its opposite. Literals and phases have a negation already; here it is
carried over to assignments, stored phases, formulas, answers and solvers.

**Mirrors** (`mirror`). Statements about two runs are made for a run and its copy (`false`) and for
a run and its mirror image (`true`) at once.

**Equivariance.** Each operation on values and phases commutes with the mirror: what it answers
about a mirror image is the mirror image of what it answers. The smallest free variable and the
number of values are the same.
-/

namespace Polarity

/-! ## Negations -/

instance : Neg Assignment := ⟨fun a => { a with slots := a.slots.map (- ·) }⟩

instance : Neg PhaseArray := ⟨fun b => ⟨b.entries.map (- ·)⟩⟩

instance : Neg Phases := ⟨fun p => ⟨-p.best, -p.saved, -p.target⟩⟩

instance : Neg Store := ⟨fun s => ⟨-s.assignment, -s.phases⟩⟩

/-- The solver with every value, every stored phase and the phase of variables for which nothing is
stored turned into its opposite. Its counters and all else are the same. -/
instance : Neg Solver :=
  ⟨fun s => { s with options.initialPhase := -s.options.initialPhase, store := -s.store }⟩

instance : Neg Entry := ⟨fun e => { e with lit := -e.lit }⟩

/-- The formula with every literal negated. -/
instance : Neg Formula := ⟨fun f => { f with clauses := f.clauses.map (·.map (- ·)) }⟩

/-- The answer with every literal of its model negated. -/
protected def Outcome.neg : Outcome → Outcome
  | .sat m => .sat (m.map (- ·))
  | .unsat => .unsat
  | .unknown => .unknown

instance : Neg Outcome := ⟨Outcome.neg⟩

protected def ClauseStatus.neg : ClauseStatus → ClauseStatus
  | .unit l => .unit (-l)
  | .satisfied => .satisfied
  | .falsified => .falsified
  | .undecided => .undecided

instance : Neg ClauseStatus := ⟨ClauseStatus.neg⟩

/-- The thing itself, or its negation. -/
def mirror {α : Type} [Neg α] (m : Bool) (x : α) : α := bif m then -x else x

@[simp] theorem mirror_false {α : Type} [Neg α] (x : α) : mirror false x = x := rfl

theorem mirror_true {α : Type} [Neg α] (x : α) : mirror true x = -x := rfl

variable {m : Bool} {a : Assignment} {b : PhaseArray} {p q : Phase} {l : Literal} {v : Variable}
  {n : Nat}

theorem Outcome.mirror_sat {m : Bool} {model : List Literal} :
    mirror m (Outcome.sat model) = .sat (model.map (mirror m ·)) := by
  cases m
  · simp
  · rfl

/-! ## Literals and phases -/

@[simp] theorem Literal.var_mirror : (mirror m l).var = l.var := by
  cases m <;> rfl

theorem Literal.neg_mirror : -mirror m l = mirror m (-l) := by
  cases m <;> rfl

@[simp] theorem Phase.isSet_mirror : (mirror m p).isSet = p.isSet := by
  cases m
  · rfl
  · exact isSet_neg p

theorem Phase.overlay_mirror : (mirror m p).overlay (mirror m q) = mirror m (p.overlay q) := by
  cases m <;> cases p <;> cases q <;> rfl

/-- The sign with which a set phase is decided is mirrored. -/
theorem Literal.decided_mirror (h : m = true → p.isSet = true) :
    (⟨v, mirror m p ≠ .negative⟩ : Literal) = mirror m ⟨v, p ≠ .negative⟩ := by
  cases m with
  | false => rfl
  | true =>
    cases p with
    | positive => rfl
    | negative => rfl
    | unset => exact absurd (h rfl) (by decide)

/-! ## Assignments -/

namespace Assignment

theorem value_neg : (-a).value l = (a.value l).map (- ·) := by
  show entry { a with slots := a.slots.map (- ·) } l.slot = (a.entry l.slot).map (- ·)
  unfold entry
  rw [Array.getElem?_map]
  cases a.slots[l.slot]? <;> rfl

theorem Consistent.value_of_neg (ha : a.Consistent) : a.value (-l) = (a.value l).map (- ·) := by
  cases h : a.value l with
  | ok p => exact ha.opposite l p h
  | error e =>
    -- The slots of a literal and its negation are in range together.
    cases hn : a.value (-l) with
    | ok q =>
      have := ha.opposite _ _ hn
      rw [Literal.neg_neg, h] at this
      cases this
    | error d =>
      unfold value entry at h hn
      cases h' : a.slots[l.slot]? <;> cases hn' : a.slots[(-l).slot]? <;> rw [h'] at h <;>
        rw [hn'] at hn <;> cases h <;> cases hn
      rfl

/-- **A mirrored literal has the value that the literal has.** -/
theorem Consistent.value_mirror (ha : a.Consistent) :
    (mirror m a).value (mirror m l) = a.value l := by
  cases m with
  | false => rfl
  | true =>
    rw [mirror_true, mirror_true, value_neg, ha.value_of_neg]
    cases a.value l with
    | error e => rfl
    | ok p => exact congrArg Except.ok (Phase.neg_neg p)

theorem varValue_mirror : (mirror m a).varValue v = (a.varValue v).map (mirror m ·) := by
  cases m with
  | false => cases h : a.varValue v <;> simp [Except.map, h]
  | true => exact value_neg

@[simp] theorem vars_mirror : (mirror m a).vars = a.vars := by
  cases m
  · rfl
  · show (a.slots.map _).size / 2 = a.slots.size / 2
    rw [Array.size_map]

@[simp] theorem assigned_mirror : (mirror m a).assigned = a.assigned := by
  cases m <;> rfl

theorem varValues_mirror : (mirror m a).varValues = a.varValues.map (mirror m ·) := by
  unfold varValues
  rw [vars_mirror, List.map_map]
  refine List.map_congr_left fun i _ => ?_
  cases m with
  | false => rfl
  | true =>
    show (a.slots.map (- ·)).getD (2 * i) .unset = -a.slots.getD (2 * i) .unset
    rw [Array.getD_eq_getD_getElem?, Array.getD_eq_getD_getElem?, Array.getElem?_map]
    cases a.slots[2 * i]? <;> rfl

theorem Consistent.mirror (ha : a.Consistent) (m : Bool) : (mirror m a).Consistent := by
  cases m with
  | false => exact ha
  | true =>
    have hvalues := varValues_mirror (m := true) (a := a)
    refine ⟨?_, fun l p h => ?_, ?_⟩
    · rw [vars_mirror, ← ha.even]
      exact Array.size_map
    · rw [mirror_true, value_neg] at h ⊢
      rw [ha.value_of_neg]
      cases hl : a.value l with
      | error e => rw [hl] at h; cases h
      | ok q =>
        rw [hl] at h
        obtain rfl : -q = p := Except.ok.inj h
        rfl
    · rw [assigned_mirror, ha.counted, hvalues, List.countP_map]
      refine List.countP_congr fun p _ => ?_
      simp

@[simp] theorem firstUnassigned_mirror : (mirror m a).firstUnassigned = a.firstUnassigned := by
  unfold firstUnassigned
  rw [varValues_mirror, List.findIdx?_map]
  congr 2
  funext p
  simp

/-- The model of a full assignment is mirrored with it. -/
theorem model_mirror (h : a.firstUnassigned = none) :
    (Polarity.mirror m a).model = a.model.map (Polarity.mirror m ·) := by
  have hall := List.findIdx?_eq_none_iff.1 (Option.map_eq_none_iff.1 h)
  unfold model
  rw [varValues_mirror]
  refine List.ext_getElem (by simp) fun i hi _ => ?_
  have hi' : i < a.varValues.length := by simpa using hi
  have hset := hall _ (List.getElem_mem hi')
  simp only [List.getElem_mapIdx, List.getElem_map]
  generalize a.varValues[i] = p at hset ⊢
  cases m with
  | false => rfl
  | true =>
    cases p with
    | positive => rfl
    | negative => rfl
    | unset => simp at hset

theorem put_mirror (ha : a.Consistent) (hl : a.value l = .ok .unset) :
    (Polarity.mirror m a).put (Polarity.mirror m l) = Polarity.mirror m (a.put l) := by
  cases m with
  | false => rfl
  | true =>
    have ha' := ha.mirror true
    have hl' : (-a).value (-l) = .ok .unset := (ha.value_mirror (m := true)).trans hl
    refine (ha'.put hl').ext ((ha.put hl).mirror true) (by simp) fun k => ?_
    simp only [mirror_true] at ha' ⊢
    rw [value_neg, value_put ha' hl', value_put ha hl, Literal.neg_neg, value_neg]
    by_cases hk : k = l
    · subst hk
      simp [(Literal.neg_ne k).symm, Except.map]
    · by_cases hn : k = -l
      · subst hn
        simp [Literal.neg_ne, Except.map]
      · simp [hk, hn]

theorem freed_mirror :
    (Polarity.mirror m a).freed v (Polarity.mirror m p) = Polarity.mirror m (a.freed v p) := by
  cases m with
  | false => rfl
  | true =>
    refine congrArg₂ Assignment.mk ?_ ?_
    · show _ = Array.map (- ·) (Array.setIfInBounds (Array.setIfInBounds ..) ..)
      rw [Array.map_setIfInBounds, Array.map_setIfInBounds]
      rfl
    · rw [Phase.isSet_mirror, assigned_mirror]
      rfl

end Assignment

/-! ## The status of a clause -/

namespace ClauseStatus

@[simp] theorem mirror_satisfied : mirror m satisfied = satisfied := by cases m <;> rfl

@[simp] theorem mirror_falsified : mirror m falsified = falsified := by cases m <;> rfl

@[simp] theorem mirror_undecided : mirror m undecided = undecided := by cases m <;> rfl

@[simp] theorem mirror_unit : mirror m (unit l) = unit (mirror m l) := by cases m <;> rfl

end ClauseStatus

/-- **A mirrored clause has the mirrored status.** -/
theorem Clause.status_mirror (ha : a.Consistent) (c : Clause) :
    Clause.status (mirror m a) (c.map (mirror m ·)) = (Clause.status a c).map (mirror m ·) := by
  induction c with
  | nil => cases m <;> rfl
  | cons l c ih =>
    rw [List.map_cons, Clause.status, Clause.status, ha.value_mirror, ih]
    cases a.value l with
    | error e => rfl
    | ok p =>
      cases p with
      | positive => cases m <;> rfl
      | negative => rfl
      | unset =>
        cases Clause.status a c with
        | error e => rfl
        | ok r => cases m <;> cases r <;> rfl

/-! ## Arrays of phases -/

namespace PhaseArray

@[simp] theorem size_mirror : (mirror m b).size = b.size := by
  cases m
  · rfl
  · exact Array.size_map

theorem get_mirror : (mirror m b).get v = (b.get v).map (mirror m ·) := by
  cases m with
  | false => cases h : b.get v <;> simp [Except.map, h]
  | true =>
    show PhaseArray.get ⟨b.entries.map (- ·)⟩ v = _
    unfold get
    rw [Array.getElem?_map]
    cases b.entries[v.index]? <;> rfl

theorem written_mirror : (mirror m b).written v (mirror m p) = mirror m (b.written v p) := by
  cases m with
  | false => rfl
  | true =>
    show written ⟨b.entries.map (- ·)⟩ v (-p) = ⟨(b.entries.setIfInBounds v.index p).map (- ·)⟩
    rw [Array.map_setIfInBounds]
    rfl

theorem overlaid_mirror (phases : List Phase) :
    (mirror m b).overlaid (phases.map (mirror m ·)) = mirror m (b.overlaid phases) := by
  cases m with
  | false => simp
  | true =>
    refine congrArg PhaseArray.mk (Array.ext_getElem? fun i => ?_)
    show (Array.zipWith _ (b.entries.map (- ·)) _)[i]? = (Array.map (- ·) (Array.zipWith ..))[i]?
    rw [Array.getElem?_map, Array.getElem?_zipWith, Array.getElem?_zipWith, Array.getElem?_map]
    have hphases (f : Phase → Phase) : (phases.map f).toArray[i]? = phases[i]?.map f := by simp
    have hphases' : phases.toArray[i]? = phases[i]? := by simp
    rw [hphases, hphases']
    generalize b.entries[i]? = x
    cases x with
    | none => rfl
    | some p =>
      cases phases[i]? with
      | none => rfl
      | some q => exact congrArg some (Phase.overlay_mirror (m := true))

end PhaseArray

end Polarity
