import Polarity.Prediction.Generate
import Polarity.Proofs.Results
import Polarity.Proofs.Text.Layout

/-!
# What a list of predictions generates

**Reading.** The lines that are not blank are the predictions of a text. If each of them is decoded,
they are read one by one (`parseWith_of_decode`).

**Slots.** To use a prediction is to write at most one entry. So after any list of predictions an
entry holds what the last prediction for its variable proposes, and what it held before if there is
none (`phases_foldl_add`), and each prediction that is not usable was counted
(`skipped_foldl_add`). A hint starts with all entries unset and nothing skipped, and is then given
the predictions that are kept (`ofPredictions_eq_ok`), which are so many from the front of the list
(`kept_eq_ok`).
-/

namespace Polarity

variable {p : Prediction} {ps used : List Prediction} {v index : Nat}

/-! ## Reading -/

namespace Prediction

/-- The lines of a text that are not blank, with their numbers. -/
def written (text : String) : List (Nat × List Char) :=
  (Text.numbered 1 (Text.lines text.toList)).filter fun (_, line) => !(Text.trim line).isEmpty

theorem map_snd_written (text : String) :
    (written text).map (·.2) =
      (Text.lines text.toList).filter fun line => !(Text.trim line).isEmpty := by
  have h := Text.map_snd_numbered 1 (Text.lines text.toList)
  conv_rhs => rw [← h]
  rw [List.filter_map]
  rfl

theorem parseWith_of_decode {decode : String → Option Json} {text : String}
    {value : List Char → Json}
    (h : ∀ l ∈ written text, decode (String.ofList l.2) = some (value l.2)) :
    parseWith decode text = .ok ((written text).map fun l => ⟨l.1, value l.2⟩) :=
  mapM_eq_ok fun l hl => by simp [readLine, h l hl]

/-- The phase that a prediction proposes for a variable. -/
def proposal? (v : Nat) (p : Prediction) : Option Phase :=
  if p.index? = some v then p.phase? else none

/-- The prediction names a variable and a phase. -/
def isUsable (p : Prediction) : Bool := p.index?.isSome && p.phase?.isSome

end Prediction

/-! ## Using predictions -/

namespace Generated

open Prediction

variable {g : Generated} {vars : Nat} {fraction : Option Double}

theorem size_add : (g.add p).phases.size = g.phases.size := by
  unfold add
  split <;> simp

theorem phases_add :
    (g.add p).phases[v]? = g.phases[v]?.map fun stored => (p.proposal? v).getD stored := by
  unfold add proposal?
  split
  · next index phase hindex hphase =>
    rw [hindex, hphase, Array.getElem?_setIfInBounds]
    by_cases hv : index = v
    · subst hv
      by_cases hsize : index < g.phases.size <;> simp [hsize]
    · simp [hv]
  · next hnone =>
    have hno : (if p.index? = some v then p.phase? else none) = none := by
      split
      · next hindex => exact Option.eq_none_iff_forall_ne_some.2 fun q hq => hnone v q hindex hq
      · rfl
    simp [hno]

theorem skipped_add : (g.add p).skipped = g.skipped + if p.isUsable then 0 else 1 := by
  unfold add isUsable
  cases p.index? <;> cases p.phase? <;> rfl

theorem size_foldl_add : (ps.foldl add g).phases.size = g.phases.size := by
  induction ps generalizing g with
  | nil => rfl
  | cons p ps ih => rw [List.foldl_cons, ih, size_add]

/-- **The last proposal counts.** -/
theorem phases_foldl_add :
    (ps.foldl add g).phases[v]? =
      g.phases[v]?.map fun stored => (ps.filterMap (proposal? v)).getLast?.getD stored := by
  induction ps generalizing g with
  | nil => simp
  | cons p ps ih =>
    rw [List.foldl_cons, ih, phases_add, Option.map_map, List.filterMap_cons]
    congr 1
    funext stored
    cases hp : p.proposal? v with
    | none => rfl
    | some q => simp [List.getLast?_cons]

/-- Each prediction that cannot be used is skipped. -/
theorem skipped_foldl_add :
    (ps.foldl add g).skipped = g.skipped + ps.countP fun p => !p.isUsable := by
  induction ps generalizing g with
  | nil => rfl
  | cons p ps ih =>
    rw [List.foldl_cons, ih, skipped_add, List.countP_cons]
    cases p.isUsable <;> simp
    omega

/-! ## Predictions that are kept -/

/-- A fraction that can be used: a number that is zero or greater. -/
def Accepted (fraction : Double) : Prop :=
  fraction.isFinite = true ∧ fraction.isNonnegative = true

instance : DecidablePred Accepted := fun _ => inferInstanceAs (Decidable (_ ∧ _))

theorem Accepted.of_mem {x : Double} (h : Accepted x) : ∀ z ∈ some x, Accepted z := by
  simpa using h

/-- How many of the predictions are kept. -/
def keptCount (count vars : Nat) : Option Double → Nat
  | none => count
  | some fraction => min (topCount vars fraction) count

theorem kept_eq_ok (h : ∀ x ∈ fraction, Accepted x) :
    kept ps vars fraction = .ok (ps.take (keptCount ps.length vars fraction)) := by
  cases fraction with
  | none => simp [kept, keptCount]
  | some x =>
    obtain ⟨hfinite, hnonnegative⟩ := h x rfl
    simp [kept, hfinite, hnonnegative, keptCount]

theorem kept_eq_error {bad : Double} (h : ¬ Accepted bad) :
    kept ps vars (some bad) = .error (.invalidFraction bad) := by
  rw [kept, if_neg]
  simpa [Accepted] using h

/-! ## Hints -/

/-- The hint is made of the predictions that were used. -/
structure MadeOf (used : List Prediction) (vars : Nat) (g : Generated) : Prop where
  size : g.size = vars
  phases : ∀ v < vars,
    g.phases[v]? = some ((used.filterMap (proposal? v)).getLast?.getD .unset)
  skipped : g.skipped = used.countP fun p => !p.isUsable

/-- The hint with no entry set. -/
def blank (vars : Nat) : Generated where
  phases := Array.replicate vars .unset
  skipped := 0

@[simp] theorem size_blank (vars : Nat) : (blank vars).phases.size = vars := Array.size_replicate

theorem madeOf_foldl_blank (used : List Prediction) (vars : Nat) :
    MadeOf used vars (used.foldl add (blank vars)) where
  size := size_foldl_add.trans (size_blank vars)
  phases v hv := by
    have hentry : (blank vars).phases[v]? = some .unset := by
      rw [blank, Array.getElem?_replicate, if_pos hv]
    rw [phases_foldl_add, hentry]
    rfl
  skipped := skipped_foldl_add.trans (Nat.zero_add _)

theorem ofPredictions_eq_noIndex (hmax : (ps.filterMap index?).max? = none) :
    ofPredictions ps fraction = .error .noIndex := by
  simp only [ofPredictions, hmax]
  rfl

theorem ofPredictions_eq_invalidFraction {bad : Double}
    (hmax : (ps.filterMap index?).max? = some index) (hroom : index + 1 < Memory.limit)
    (hkept : kept ps (index + 1) fraction = .error (.invalidFraction bad)) :
    ofPredictions ps fraction = .error (.invalidFraction bad) := by
  simp [ofPredictions, hmax, Memory.allow_eq hroom, Except.mapError, hkept, bind, Except.bind]

theorem ofPredictions_eq_foldl (hmax : (ps.filterMap index?).max? = some index)
    (hroom : index + 1 < Memory.limit) (hkept : kept ps (index + 1) fraction = .ok used) :
    ofPredictions ps fraction = .ok (used.foldl add (blank (index + 1))) := by
  simp [ofPredictions, hmax, Memory.allow_eq hroom, Except.mapError, hkept, bind, Except.bind,
    pure, Except.pure, blank]

/-- **A hint is made of the predictions that are kept**, for the variables up to the largest that is
predicted. -/
theorem ofPredictions_eq_ok (hmax : (ps.filterMap index?).max? = some index)
    (hroom : index + 1 < Memory.limit) (hkept : kept ps (index + 1) fraction = .ok used) :
    ∃ g, ofPredictions ps fraction = .ok g ∧ g.MadeOf used (index + 1) :=
  ⟨_, ofPredictions_eq_foldl hmax hroom hkept, madeOf_foldl_blank used _⟩

end Generated

end Polarity
