import Polarity.Proofs.Change.Keeping
import Polarity.Solver.Task

/-!
# What a search leaves alone

All that a search does to a solver is to close the window for hints, to count, to make literals
true, to take variables back and to remember values. A property of solvers that each of these keeps
(`Solver.Stable`) is kept by the search, also by one that fails and by one of a formula that is not
well-formed: `keeps_search`. So the options and the name of the hint file stay as they were
(`search_rest`), and the window is closed whatever comes of the search (`locked_search`).

The other tasks do little more (`Solver.Durable`). So what a search keeps is mostly kept by every
task: `Durable.keeps_perform`.
-/

namespace Polarity

open Change

/-- A property of solvers that no single step of a search breaks. -/
structure Solver.Stable (P : Solver → Prop) : Prop where
  count : ∀ f, Keeps P (Solver.count f)
  assign : ∀ l, Keeps P (Solver.onStore (Store.onAssignment (Assignment.assign l)))
  saveBest : Keeps P (Solver.onStore Store.saveBest)
  saveTarget : Keeps P (Solver.onStore Store.saveTarget)
  backtrack : ∀ v, Keeps P (Solver.onStore (Store.backtrack v))

variable {P : Solver → Prop}

namespace Search

/-- The property holds of the solver of a search. -/
def Within (P : Solver → Prop) (s : Search) : Prop := P s.solver

theorem keeps_onSolver {α : Type} {c : Change Solver α} (hc : Keeps P c) :
    Keeps (Within P) (onSolver c) :=
  hc.on (fun _ h => h) fun _ _ _ h => h

variable (h : Solver.Stable P)
include h

theorem keeps_push (l : Literal) (r : Reason) : Keeps (Within P) (push l r) :=
  (keeps_onSolver (h.assign l)).bind fun _ => keeps_modify fun _ hs => hs

theorem keeps_savePhases : Keeps (Within P) savePhases := by
  refine keeps_get.bind fun s => keeps_get.bind fun _ => ?_
  -- Best phases come last, whether or not target phases were taken.
  have hbest : Keeps (Within P) (do
      if (← get).bestAssigned < s.assignment.assigned then
        onStore Store.saveBest
        modify fun u => { u with bestAssigned := s.assignment.assigned } : Change Search Unit) :=
    keeps_get.bind fun _ => keeps_ite _
      ((keeps_onSolver h.saveBest).bind fun _ => keeps_modify fun _ hs => hs) (keeps_pure ())
  refine keeps_ite _ ((keeps_onSolver h.saveTarget).bind fun _ => ?_) hbest
  refine Keeps.bind (keeps_modify ?_) fun _ => hbest
  exact fun _ hs => hs

theorem keeps_unwind (trail : List Entry) : Keeps (Within P) (unwind trail) := by
  induction trail with
  | nil => exact keeps_pure false
  | cons e earlier ih =>
    have hflip : Keeps (Within P) (do push (-e.lit) .flipped; return true : Change Search Bool) :=
      (keeps_push h (-e.lit) .flipped).bind fun _ => keeps_pure true
    rw [unwind]
    refine Keeps.bind (keeps_modify ?_) fun _ => ?_
    · exact fun _ hs => hs
    refine (keeps_onSolver (h.backtrack e.lit.var)).bind fun _ => keeps_ite _ ?_ ih
    refine keeps_ite _ (Keeps.bind (keeps_modify ?_) fun _ => hflip) hflip
    exact fun _ hs => hs

theorem keeps_pass (clauses : List Clause) : Keeps (Within P) (pass clauses) := by
  induction clauses with
  | nil => exact keeps_pure _
  | cons c later ih =>
    refine (keeps_read _).bind fun r => ?_
    cases r with
    | satisfied => exact ih
    | undecided => exact ih
    | falsified => exact keeps_pure _
    | unit l =>
      refine (keeps_onSolver (h.count .propagate)).bind fun _ => ?_
      refine (keeps_push h l .implied).bind fun _ => ih.bind fun r => ?_
      cases r <;> exact keeps_pure _

theorem keeps_passes (clauses : List Clause) (bound : Nat) :
    Keeps (Within P) (passes clauses bound) := by
  induction bound with
  | zero => exact keeps_abort _
  | succ bound ih =>
    refine (keeps_pass h clauses).bind fun r => ?_
    cases r with
    | conflict => exact keeps_pure _
    | settled => exact keeps_pure _
    | changed => exact ih

theorem keeps_round (clauses : List Clause) : Keeps (Within P) (round clauses) := by
  have hpropagate : Keeps (Within P) (propagate clauses) :=
    keeps_get.bind fun s => keeps_passes h clauses (s.free + 1)
  have hdecide (v : Variable) : Keeps (Within P) (decide v) :=
    (keeps_read _).bind fun _ => (keeps_onSolver (h.count .decide)).bind fun _ => keeps_push h _ _
  refine keeps_get.bind fun s => keeps_ite _ (keeps_pure _) (hpropagate.bind fun b => ?_)
  refine keeps_ite _ (keeps_get.bind fun t => ?_) ?_
  · cases t.assignment.firstUnassigned with
    | none => exact keeps_get.bind fun _ => keeps_pure _
    | some v => exact (hdecide v).bind fun _ => keeps_pure _
  · refine (keeps_onSolver (h.count .conflict)).bind fun _ => (keeps_savePhases h).bind fun _ => ?_
    have hbacktrack : Keeps (Within P) backtrack := keeps_get.bind fun s => keeps_unwind h s.trail
    exact hbacktrack.bind fun _ => keeps_ite _ (keeps_pure _) (keeps_pure _)

theorem keeps_rounds (clauses : List Clause) (k : Nat) : Keeps (Within P) (rounds clauses k) := by
  induction k with
  | zero => exact keeps_round h clauses
  | succ k ih =>
    refine ih.bind fun r => ?_
    cases r with
    | none => exact ih
    | some o => exact keeps_pure o

theorem keeps_finish (clauses : List Clause) : Keeps (Within P) (finish clauses) := by
  refine keeps_get.bind fun s => (keeps_rounds h clauses (s.free + 1)).bind fun r => ?_
  cases r with
  | none => exact keeps_abort _
  | some o => exact keeps_pure o

end Search

namespace Solver

variable {f : Formula} {s t : Solver} {o : Outcome}

/-- A search of a formula of the right size, after it has closed the window. -/
theorem search_run (hvars : s.vars = f.vars) :
    search f s = Change.on (fun s => { solver := s : Search }) (fun _ t => t.solver)
      (Search.finish f.clauses) { s with locked := true } := by
  simp [search, Change.ensure_run hvars, startSearch]

theorem keeps_started (h : Stable P) (clauses : List Clause) :
    Keeps P (Change.on (fun s => { solver := s : Search }) (fun _ t => t.solver)
      (Search.finish clauses)) :=
  (Search.keeps_finish h clauses).on (fun _ hs => hs) fun _ _ _ ht => ht

/-- **What no step of a search breaks, no search breaks.** -/
theorem keeps_search (h : Stable P) (hlock : ∀ s, P s → P { s with locked := true }) (f : Formula) :
    Keeps P (search f) := by
  refine keeps_get.bind fun s => (keeps_ensure _ _).bind fun _ => ?_
  exact (keeps_modify hlock).bind fun _ => keeps_started h f.clauses

theorem keeps_onStore_of_rest {α : Type}
    (h : ∀ (s : Solver) (u : Store), P s → P { s with store := u }) (c : Change Store α) :
    Keeps P (onStore c) := by
  intro s hs
  unfold carry onStore
  rw [on_run]
  cases c s.store <;> exact h s _ hs

theorem keeps_resize_of_rest (h : ∀ (s : Solver) (u : Store), P s → P { s with store := u })
    (n : Nat) : Keeps P (resize n) := by
  have hassign := keeps_onStore_of_rest h (Store.onAssignment (Assignment.resize n))
  refine keeps_ite _ ((keeps_refuse _).bind fun _ => ?_) ?_
  all_goals
    refine keeps_get.bind fun s => keeps_ite _ ((keeps_onStore_of_rest h _).bind fun _ => hassign) ?_
    exact keeps_ite _ ((keeps_onStore_of_rest h _).bind fun _ => hassign) hassign

/-- A property that only looks at what no search writes to. -/
theorem stable_of_rest (hstore : ∀ (s : Solver) (u : Store), P s → P { s with store := u })
    (hengine : ∀ (s : Solver) (e : Engine), P s → P { s with engine := e }) : Stable P where
  count _ := keeps_modify fun s hs => hengine s _ hs
  assign _ := keeps_onStore_of_rest hstore _
  saveBest := keeps_onStore_of_rest hstore _
  saveTarget := keeps_onStore_of_rest hstore _
  backtrack _ := keeps_onStore_of_rest hstore _

/-- The window is closed once a search has begun. -/
theorem locked_search (hvars : s.vars = f.vars) : ((search f).carry s).state.locked = true := by
  have hstable : Stable fun s => s.locked = true := stable_of_rest (fun _ _ h => h) fun _ _ h => h
  have hkept := keeps_started hstable f.clauses { s with locked := true } rfl
  rw [carry] at hkept ⊢
  rwa [search_run hvars]

/-- A search changes neither the options nor the name of the hint file, and closes the window. -/
theorem search_rest (h : search f s = .ok o t) :
    t.options = s.options ∧ t.initPhaseFile = s.initPhaseFile ∧ t.locked = true := by
  have hstable : Stable fun t => t.options = s.options ∧ t.initPhaseFile = s.initPhaseFile :=
    stable_of_rest (fun _ _ h => h) fun _ _ h => h
  have hrest := keeps_search hstable (fun _ ht => ht) f s ⟨rfl, rfl⟩
  rw [carry, h] at hrest
  refine ⟨hrest.1, hrest.2, ?_⟩
  by_cases hvars : s.vars = f.vars
  · have hlocked := locked_search hvars
    rwa [carry, h] at hlocked
  · simp [search, Change.ensure, hvars] at h

/-! ## Tasks -/

/-- A property of solvers that no task breaks, unless it resizes or calls the store. -/
structure Durable (P : Solver → Prop) : Prop extends Stable P where
  lock : ∀ s, P s → P { s with locked := true }
  file : ∀ s path, P s → P { s with initPhaseFile := path }
  apply : ∀ h, Keeps P (onStore (Store.onPhases (Phases.apply h)))

theorem Durable.keeps_initPhases (hP : Durable P) (h : Hint) : Keeps P (initPhases h) := by
  -- From the last step backwards; what is refused leaves the solver as it is.
  have happly : Keeps P
      (do onStore (Store.onPhases (Phases.apply h)); startSearch : Change Solver Unit) :=
    (hP.apply h).bind fun _ => keeps_modify hP.lock
  have hfits (s : Solver) : Keeps P (do
      if h.size ≠ s.vars then
        Change.refuse (.hintLength h.size s.vars)
      onStore (Store.onPhases (Phases.apply h))
      startSearch : Change Solver Unit) :=
    keeps_ite _ ((keeps_refuse _).bind fun _ => happly) happly
  exact keeps_get.bind fun s => keeps_ite _ ((keeps_refuse _).bind fun _ => hfits s) (hfits s)

theorem Durable.keeps_loadInitialPhases (hP : Durable P) (read : Reader) :
    Keeps P (loadInitialPhases read) := by
  refine keeps_get.bind fun s => ?_
  cases s.initPhaseFile with
  | none => exact keeps_pure none
  | some path =>
    refine Keeps.bind (keeps_modify fun s => hP.file s none) fun _ => ?_
    refine (keeps_read _).bind fun h => ?_
    exact (hP.keeps_initPhases h).bind fun _ => keeps_pure _

/-- **What is durable is kept by every task** that keeps it when it resizes or calls the store. -/
theorem Durable.keeps_perform (hP : Durable P) (read : Reader) {task : Task}
    (hresize : ∀ n, task = .resize n → Keeps P (resize n))
    (hcall : ∀ c, task = .call c → Keeps P (onStore (Store.call c))) :
    Keeps P (perform read task) := by
  cases task with
  | resize n => exact (hresize n rfl).bind fun _ => keeps_pure _
  | setInitPhaseFile path =>
    exact Keeps.bind (keeps_modify fun s => hP.file s (some path)) fun _ => keeps_pure _
  | loadInitialPhases => exact (hP.keeps_loadInitialPhases read).bind fun _ => keeps_pure _
  | initPhases text =>
    exact (keeps_read _).bind fun h => (hP.keeps_initPhases h).bind fun _ => keeps_pure _
  | startSearch => exact Keeps.bind (keeps_modify hP.lock) fun _ => keeps_pure _
  | search f => exact (keeps_search hP.toStable hP.lock f).bind fun _ => keeps_pure _
  | call c => exact (hcall c rfl).bind fun _ => keeps_pure _

end Solver

end Polarity
