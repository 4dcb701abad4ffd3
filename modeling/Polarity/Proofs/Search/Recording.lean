import Polarity.Proofs.Search.Coherence
import Polarity.Proofs.Search.Conflicts
import Polarity.Proofs.Search.Verdict
import Polarity.Proofs.Store.Record

/-!
# What a search records

**Theorem (`search_records`).** What the stored phases hold after a run is told by its conflicts.

* The best phase of a variable is its value at the last conflict that gives it one and comes with
  more assigned variables than every earlier one of the run.
* The same holds of its target phase, except that conflicts no longer count once the bottom-most
  decision has been flipped, which happens at most once.
* The saved phase is the value that the variable had when it was last undone.

If there is no such conflict, the phase is the one from before the run. The conflicts that matter
for an array are those that mark it (`Conflict.Marks`).

The proof keeps, along the run, each array equal to what its marking conflicts say, and the two
remembered lengths equal to the greatest numbers of assigned variables (`Tracks`). One conflict is
enough to look at (`GoesBack.get_array`).
-/

namespace Polarity

namespace Search

variable {a : Assignment} {s t u : Search} {r : Option Outcome} {e : Entry} {v : Variable}
  {p q : Phase} {gone : List Entry} {history : List Conflict} {m : Nat}

/-! ## The conflicts that mark a phase -/

namespace Conflict

/-- The number of variables that have a value at the conflict. -/
def assigned (c : Conflict) : Nat := c.met.assignment.assigned

/-- The value of a variable at the conflict; unset if it is free. -/
def value (v : Variable) (c : Conflict) : Phase := c.met.assignment.present v

/-- Some variables have a value, and more than at each of the conflicts `earlier`. -/
def Tops (earlier : List Conflict) (c : Conflict) : Prop :=
  0 < c.assigned ∧ ∀ d ∈ earlier, d.assigned < c.assigned

instance (earlier : List Conflict) (c : Conflict) : Decidable (c.Tops earlier) :=
  inferInstanceAs (Decidable (_ ∧ _))

end Conflict

/-- The conflicts after the latest one at which the bottom-most decision was flipped. -/
def sinceFlip (history : List Conflict) : List Conflict :=
  history.takeWhile fun c => !c.flipsBottom

/-- The conflict, with those that came before it, is one to remember the value of the variable as a
phase of this kind. -/
def Conflict.Marks (kind : Phases.Kind) (v : Variable) (earlier : List Conflict)
    (c : Conflict) : Prop :=
  match kind with
  | .best => c.Tops earlier
  | .target => c.Tops (sinceFlip earlier)
  | .saved => c.Undoes v

instance (kind : Phases.Kind) (v : Variable) (earlier : List Conflict) (c : Conflict) :
    Decidable (c.Marks kind v earlier) :=
  match kind with
  | .best => inferInstanceAs (Decidable (c.Tops earlier))
  | .target => inferInstanceAs (Decidable (c.Tops (sinceFlip earlier)))
  | .saved => inferInstanceAs (Decidable (c.Undoes v))

/-- The conflicts of a history that mark a phase, the latest first. -/
def marking (kind : Phases.Kind) (v : Variable) : List Conflict → List Conflict
  | [] => []
  | c :: earlier =>
    if c.Marks kind v earlier then c :: marking kind v earlier else marking kind v earlier

/-- The value of the variable at the latest of the conflicts that gives it one, or `q` if none
does. -/
def lastValue (v : Variable) (q : Phase) (cs : List Conflict) : Phase :=
  ((cs.map (·.value v)).find? Phase.isSet).getD q

theorem lastValue_cons (c : Conflict) (cs : List Conflict) :
    lastValue v q (c :: cs) = (lastValue v q cs).overlay (c.value v) := by
  unfold lastValue Phase.overlay
  rw [List.map_cons, List.find?_cons]
  cases (c.value v).isSet <;> rfl

theorem lastValue_marking (kind : Phases.Kind) (c : Conflict) :
    lastValue v q (marking kind v (c :: history)) =
      if c.Marks kind v history
      then (lastValue v q (marking kind v history)).overlay (c.value v)
      else lastValue v q (marking kind v history) := by
  rw [marking]
  split
  · exact lastValue_cons c _
  · rfl

/-! ## Remembered lengths -/

/-- The number is the greatest number of assigned variables at the conflicts, or zero. -/
def Greatest (m : Nat) (cs : List Conflict) : Prop :=
  ∀ n, m < n ↔ 0 < n ∧ ∀ c ∈ cs, c.assigned < n

theorem Greatest.nil : Greatest 0 [] := fun n => by simp

theorem Greatest.cons {cs : List Conflict} (h : Greatest m cs) (c : Conflict) :
    Greatest (max m c.assigned) (c :: cs) := by
  intro n
  rw [Nat.max_lt, h, List.forall_mem_cons]
  exact ⟨fun ⟨⟨hn, hcs⟩, hc⟩ => ⟨hn, hc, hcs⟩, fun ⟨hn, hc, hcs⟩ => ⟨⟨hn, hcs⟩, hc⟩⟩

theorem Greatest.tops_iff {cs : List Conflict} (h : Greatest m cs) (c : Conflict) :
    c.Tops cs ↔ m < c.assigned :=
  (h c.assigned).symm

/-! ## One conflict -/

/-- Taking entries back writes to the saved phases only. -/
theorem array_notingAll (kind : Phases.Kind) (hkind : kind ≠ .saved) (ph : Phases)
    (gone : List Entry) : (notingAll ph gone).array kind = ph.array kind := by
  induction gone generalizing ph with
  | nil => rfl
  | cons e gone ih =>
    refine (ih (ph.noting e.lit)).trans ?_
    cases kind with
    | saved => exact absurd rfl hkind
    | best => rfl
    | target => rfl

theorem lt_size_of_get {b : PhaseArray} (h : b.get v = .ok q) : v.index < b.size := by
  by_contra hge
  have hnone : b.entries[v.index]? = none := Array.getElem?_eq_none (Nat.not_lt.1 hge)
  simp [PhaseArray.get, hnone] at h

/-- What is saved for a variable when entries are taken back that all give it one sign. -/
theorem get_notingAll (ph : Phases) (hget : ph.saved.get v = .ok q)
    (hsign : ∀ e ∈ gone, e.lit.var = v → Phase.ofBool e.lit.positive = p) :
    (notingAll ph gone).saved.get v = .ok (if ∃ e ∈ gone, e.lit.var = v then p else q) := by
  induction gone generalizing ph q with
  | nil => simpa [notingAll] using hget
  | cons e gone ih =>
    have hnoting : (ph.noting e.lit).saved.get v =
        if e.lit.var = v then .ok (Phase.ofBool e.lit.positive) else ph.saved.get v :=
      PhaseArray.get_written (lt_size_of_get hget)
    have hlater : ∀ d ∈ gone, d.lit.var = v → Phase.ofBool d.lit.positive = p := fun d hd =>
      hsign d (List.mem_cons_of_mem e hd)
    by_cases he : e.lit.var = v
    · rw [if_pos he, hsign e List.mem_cons_self he] at hnoting
      rw [if_pos ⟨e, List.mem_cons_self, he⟩]
      exact (ih _ hnoting hlater).trans (congrArg _ (ite_self p))
    · rw [if_neg he, hget] at hnoting
      have hiff : (∃ d ∈ e :: gone, d.lit.var = v) ↔ ∃ d ∈ gone, d.lit.var = v := by simp [he]
      rw [if_congr hiff rfl rfl]
      exact ih _ hnoting hlater

theorem Grounded.present_of_mem (hu : u.Grounded a) (he : e ∈ u.trail) :
    u.assignment.present e.lit.var = Phase.ofBool e.lit.positive := by
  have htrue := hu.fits.value_of_mem hu.consistent he
  rw [← hu.assignment] at htrue
  exact Store.present_eq (hu.assignment_consistent.varValue_of_positive htrue)

/-- What becomes of an array into which the values are written if there are more than `n`. -/
theorem Grounded.get_recorded (hu : u.Grounded a) {b : PhaseArray} (hsize : b.size = a.vars)
    (hget : b.get v = .ok q) (n : Nat) :
    (if n < u.assignment.assigned then b.overlaid u.assignment.varValues else b).get v =
      .ok (if n < u.assignment.assigned then q.overlay (u.assignment.present v) else q) := by
  have hlength : b.size = u.assignment.varValues.length := by
    rw [Assignment.length_varValues, hsize, hu.vars_assignment]
  have hv : v.index < u.assignment.vars :=
    Assignment.length_varValues (a := u.assignment) ▸ hlength ▸ lt_size_of_get hget
  have hpresent := Store.getElem?_varValues_present hu.assignment_consistent hv
  split
  · exact PhaseArray.get_overlaid hlength hget hpresent
  · exact hget

/-- **What one conflict writes**: the value of the variable, into the arrays that it marks. -/
theorem GoesBack.get_array (h : GoesBack a u r t) (hu : u.Grounded a)
    (hbest : Greatest u.bestAssigned history)
    (htarget : Greatest u.targetAssigned (sinceFlip history)) {kind : Phases.Kind}
    (hget : (u.phases.array kind).get v = .ok q) :
    (t.phases.array kind).get v = .ok (if Conflict.Marks kind v history ⟨u, t⟩
      then q.overlay (Conflict.value v ⟨u, t⟩) else q) := by
  obtain ⟨gone, hgone, hphases, hundone⟩ := h.exists_undone hu
  rw [hphases]
  cases kind with
  | best =>
    have hmarks : Conflict.Marks .best v history ⟨u, t⟩ ↔
        u.bestAssigned < u.assignment.assigned := hbest.tops_iff ⟨u, t⟩
    rw [array_notingAll .best nofun, if_congr hmarks rfl rfl]
    exact hu.get_recorded hu.sized.best hget u.bestAssigned
  | target =>
    have hmarks : Conflict.Marks .target v history ⟨u, t⟩ ↔
        u.targetAssigned < u.assignment.assigned := htarget.tops_iff ⟨u, t⟩
    rw [array_notingAll .target nofun, if_congr hmarks rfl rfl]
    exact hu.get_recorded hu.sized.target hget u.targetAssigned
  | saved =>
    have hnoted := get_notingAll u.recordedPhases (p := u.assignment.present v) hget
      fun e he hvar => by rw [← hvar, hu.present_of_mem (hgone e he)]
    refine hnoted.trans (congrArg _ ?_)
    by_cases hundoes : Conflict.Undoes v ⟨u, t⟩
    · obtain ⟨e, he, rfl⟩ := (hundone v).1 hundoes
      have hset : (u.assignment.present e.lit.var).isSet = true := by
        rw [hu.present_of_mem (hgone e he), Phase.isSet_ofBool]
      rw [if_pos ⟨e, he, rfl⟩, if_pos (show Conflict.Marks .saved _ history ⟨u, t⟩ from hundoes)]
      exact (if_pos hset).symm
    · rw [if_neg (mt (hundone v).2 hundoes),
        if_neg (show ¬ Conflict.Marks .saved v history ⟨u, t⟩ from hundoes)]

/-! ## Runs -/

/-- The arrays hold what the history says, and the lengths are remembered for which values were
written to them. -/
structure Tracks (old : Phases) (history : List Conflict) (t : Search) : Prop where
  get : ∀ kind v q, (old.array kind).get v = .ok q →
    (t.phases.array kind).get v = .ok (lastValue v q (marking kind v history))
  best : Greatest t.bestAssigned history
  target : Greatest t.targetAssigned (sinceFlip history)

variable {old : Phases}

theorem Tracks.continues (h : Tracks old history s) (hst : s.Continues t) :
    Tracks old history t where
  get kind v q hq := hst.phases ▸ h.get kind v q hq
  best := hst.bestAssigned ▸ h.best
  target := hst.targetAssigned ▸ h.target

theorem GoesBack.bestAssigned (h : GoesBack a u r t) :
    t.bestAssigned = max u.bestAssigned u.assignment.assigned := by
  cases h <;> rfl

theorem GoesBack.targetAssigned (h : GoesBack a u r t) :
    t.targetAssigned = if Conflict.flipsBottom ⟨u, t⟩ then 0
      else max u.targetAssigned u.assignment.assigned := by
  cases h with
  | @flipped gone earlier l htrail =>
    rw [if_congr ((flipsBottom_iff htrail rfl).trans level_eq_zero_iff.symm) rfl rfl]
    rfl
  | refuted =>
    rw [if_neg (not_flipsBottom_of_nil rfl)]
    rfl

theorem Tracks.goesBack (h : Tracks old history u) (hu : u.Grounded a)
    (hback : GoesBack a u r t) : Tracks old (⟨u, t⟩ :: history) t where
  get kind v q hq := by
    rw [hback.get_array hu h.best h.target (h.get kind v q hq), lastValue_marking]
  best := by
    rw [hback.bestAssigned]
    exact h.best.cons ⟨u, t⟩
  target := by
    rw [hback.targetAssigned, sinceFlip, List.takeWhile_cons]
    cases Conflict.flipsBottom ⟨u, t⟩ with
    | true => exact .nil
    | false => exact h.target.cons ⟨u, t⟩

/-- What a run that started with the solver `s` and has met these conflicts has recorded. -/
structure Recorded (s : Solver) (history : List Conflict) (t : Search) : Prop where
  sized : t.phases.Sized s.vars
  get : ∀ kind v q, (s.store.phases.array kind).get v = .ok q →
    (t.phases.array kind).get v = .ok (lastValue v q (marking kind v history))
  flips : history.countP (·.flipsBottom) ≤ 1
  counted : t.statistics.conflicts =
    s.engine.statistics.conflicts + UInt64.ofNat history.length

/-- What is kept along a run without a result. -/
structure Records (s : Solver) (history : List Conflict) (t : Search) : Prop where
  tracks : Tracks s.store.phases history t
  flips : FlippedOnce history t.trail
  counted : t.statistics.conflicts =
    s.engine.statistics.conflicts + UInt64.ofNat history.length

variable {x : Solver}

theorem Recorded.interrupted (h : Recorded x history t) : Recorded x history t.interrupted :=
  ⟨h.sized, h.get, h.flips, h.counted⟩

theorem records_start (x : Solver) : Records x [] (start x) where
  tracks := ⟨fun kind v q hq => by cases kind <;> exact hq, .nil, .nil⟩
  flips := ⟨Nat.zero_le 1, fun hpos => absurd hpos (Nat.lt_irrefl 0)⟩
  counted := by simp [statistics, Search.start]

theorem Records.recorded (h : Records x history t) (ht : t.Grounded x.store.assignment) :
    Recorded x history t :=
  ⟨ht.sized, h.tracks.get, h.flips.once, h.counted⟩

theorem Records.continues (h : Records x history s) (hst : s.Continues t) :
    Records x history t :=
  ⟨h.tracks.continues hst, h.flips.continues hst, hst.conflicts.trans h.counted⟩

/-- **A conflict is recorded**, and if the run goes on, the next one will be. -/
theorem Records.goesBack (h : Records x history u) (hu : u.Grounded x.store.assignment)
    (ht : t.Grounded x.store.assignment) (hback : GoesBack x.store.assignment u r t) :
    Recorded x (⟨u, t⟩ :: history) t ∧ (r = none → Records x (⟨u, t⟩ :: history) t) := by
  have htracks := h.tracks.goesBack hu hback
  obtain ⟨honce, hflips⟩ := h.flips.goesBack hback
  have hcounted : t.statistics.conflicts =
      x.engine.statistics.conflicts + UInt64.ofNat (history.length + 1) := by
    have hone : t.statistics.conflicts = u.statistics.conflicts + 1 := by cases hback <;> rfl
    rw [hone, h.counted, UInt64.ofNat_add, UInt64.add_assoc]
    rfl
  exact ⟨⟨ht.sized, htracks.get, honce, hcounted⟩, fun hr => ⟨htracks, hflips hr, hcounted⟩⟩

/-- One round, with or without a conflict. -/
theorem Records.next {f : Formula} {k : Nat} (h : Records x (conflicts f.clauses k (start x)) s)
    (hcl : Covers x.store.assignment.vars f.clauses) (hs : s.Grounded x.store.assignment)
    (ht : t.Grounded x.store.assignment) (hk : iterate f.clauses k (start x) = .ok none s)
    (hround : round f.clauses s = .ok r t) :
    Recorded x (conflicts f.clauses (k + 1) (start x)) t ∧
      (r = none → Records x (conflicts f.clauses (k + 1) (start x)) t) := by
  rw [conflicts_succ hk]
  rcases conflict?_cases hs hcl hround with ⟨hnone, hst⟩ | ⟨u, hu, hsu, hsome, hback⟩
  · rw [hnone]
    exact ⟨(h.continues hst).recorded ht, fun _ => h.continues hst⟩
  · rw [hsome]
    exact (h.continues hsu).goesBack hu ht hback

end Search

open Search

variable {f : Formula} {s : Solver}

theorem Solver.SizedTo.iterate_recorded (hs : s.SizedTo f) (hf : f.WellFormed) (k : Nat) :
    ∃ r t, iterate f.clauses k (start s) = .ok r t ∧
      Recorded s (conflicts f.clauses k (start s)) t := by
  have hcl := hs.covers hf
  obtain ⟨r, t, ht, hg, h⟩ := iterate_spec hs.grounded hcl
    (P := fun k t => Records s (conflicts f.clauses k (start s)) t)
    (Q := fun k _ t => Recorded s (conflicts f.clauses k (start s)) t)
    (records_start s)
    (fun {_ t r u} hk hg hrecords hround hturn => by
      have hnext := hrecords.next hcl hg (hturn.grounded hg hcl) hk hround
      cases r with
      | none => exact hnext.2 rfl
      | some o => exact hnext.1)
    k
  cases r with
  | none => exact ⟨none, t, ht, h.recorded hg⟩
  | some o =>
    obtain ⟨j, hj, hdone, hrecorded⟩ := h
    exact ⟨some o, t, ht, conflicts_of_le hdone hj ▸ hrecorded⟩

namespace Solver

/-- **What a search records** is told by its conflicts: after every run, also one that is stopped
after any number of rounds, each array holds for each variable its value at the latest conflict that
marks it, or what it held before, and the bottom-most decision was flipped once at most. -/
theorem search_records (hf : f.WellFormed) (hs : s.SizedTo f) :
    (∀ k, ∃ o t, stoppedAfter f.clauses k (start s) = .ok o t ∧
      Recorded s (conflicts f.clauses k (start s)) t) ∧
    ∃ k o t, iterate f.clauses k (start s) = .ok (some o) t ∧ search f s = .ok o t.solver ∧
      Recorded s (conflicts f.clauses k (start s)) t := by
  constructor
  · intro k
    obtain ⟨r, t, ht, hrecorded⟩ := hs.iterate_recorded hf k
    rw [stoppedAfter_eq ht]
    cases r with
    | none => exact ⟨.unknown, t.interrupted, rfl, hrecorded.interrupted⟩
    | some o => exact ⟨o, t, rfl, hrecorded⟩
  · obtain ⟨k, o, t, -, hk, hsearch, -⟩ := search_ends hf hs
    obtain ⟨r, u, hu, hrecorded⟩ := hs.iterate_recorded hf k
    obtain ⟨rfl, rfl⟩ : r = some o ∧ u = t := by simpa [hk, eq_comm] using hu
    exact ⟨k, o, u, hk, hsearch, hrecorded⟩

/-- Both signs of the first variable lead to a conflict, the positive one to the longer one. -/
def restart : Formula where
  vars := 3
  clauses := [[⟨⟨0⟩, false⟩, ⟨⟨1⟩, true⟩], [⟨⟨1⟩, false⟩, ⟨⟨2⟩, true⟩],
    [⟨⟨0⟩, false⟩, ⟨⟨2⟩, false⟩], [⟨⟨0⟩, true⟩, ⟨⟨1⟩, true⟩], [⟨⟨0⟩, true⟩, ⟨⟨1⟩, false⟩]]

/-- The second conflict is shorter. It comes after the bottom-most decision was flipped, so its
values go to the target phases, but not to the best ones. -/
theorem search_records_restart :
    ∃ o t, stoppedAfter restart.clauses 3 (start (blank {} 3)) = .ok o t ∧
      (conflicts restart.clauses 3 (start (blank {} 3))).map (·.assigned) = [2, 3] ∧
      t.phases.best.get ⟨0⟩ = .ok .positive ∧ t.phases.target.get ⟨0⟩ = .ok .negative ∧
      t.phases.saved.get ⟨0⟩ = .ok .negative := by
  have hf : restart.WellFormed := ⟨by decide, by decide⟩
  obtain ⟨o, t, hrun, hrecorded⟩ := (search_records hf (sizedTo_blank {} restart)).1 3
  refine ⟨o, t, hrun, by decide +kernel, ?_, ?_, ?_⟩
  · refine (hrecorded.get .best ⟨0⟩ .unset rfl).trans (congrArg _ ?_)
    decide +kernel
  · refine (hrecorded.get .target ⟨0⟩ .unset rfl).trans (congrArg _ ?_)
    decide +kernel
  · refine (hrecorded.get .saved ⟨0⟩ .unset rfl).trans (congrArg _ ?_)
    decide +kernel

end Solver

end Polarity
