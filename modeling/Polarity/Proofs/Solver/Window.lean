import Polarity.Proofs.Hint.Loading
import Polarity.Proofs.Solver.Aligned

/-!
# The window for initial phases

**What an attempt can do.** `initPhases` and `loadInitialPhases` end in one of the ways that
`InitResult` and `LoadResult` list. A hint that is taken is written to best and target phases where
it is set, and closes the window (`Took`). An attempt that fails changes nothing, except that a load
uses up the name of its file.

**Histories.** A `Step` is a task with the files as they are at that moment. An attempt only
succeeds when the window is open and closes it, a search closes it, and nothing opens it again. So
in every history at most one hint is taken, and none after a search has begun (`hints_apply_once`).
-/

namespace Polarity

open Change

/-! ## Taking a hint -/

namespace Solver

variable {s t : Solver} {h : Hint}

/-- The solver `t` is the solver `s` after it has taken a hint. -/
structure Took (h : Hint) (s t : Solver) : Prop where
  set : ∀ v p, h.phases[v.index]? = some p → p.isSet = true →
    t.store.phases.best.get v = .ok p ∧ t.store.phases.target.get v = .ok p
  kept : ∀ v, (∀ p, h.phases[v.index]? = some p → p.isSet = false) →
    t.store.phases.best.get v = s.store.phases.best.get v ∧
      t.store.phases.target.get v = s.store.phases.target.get v
  rest : t = { s with
    store.phases.best := t.store.phases.best
    store.phases.target := t.store.phases.target
    locked := true }

/-- What comes of an attempt to apply a hint. -/
inductive InitResult (h : Hint) (s : Solver) : EStateM.Result Failure Solver Unit → Prop
  | closed (hlocked : s.locked = true) : InitResult h s (.error (.error .hintReapplied) s)
  | length (hopen : s.locked = false) (hsize : h.size ≠ s.vars) :
      InitResult h s (.error (.error (.hintLength h.size s.vars)) s)
  | applied {t : Solver} (hopen : s.locked = false) (hsize : h.size = s.vars) (took : Took h s t) :
      InitResult h s (.ok () t)

/-- The solver with no file named. -/
def unnamed (s : Solver) : Solver := { s with initPhaseFile := none }

/-- What comes of an attempt to load a hint. -/
inductive LoadResult (read : Reader) (s : Solver) :
    EStateM.Result Failure Solver (Option Hint.Summary) → Prop
  | nothing (hfile : s.initPhaseFile = none) : LoadResult read s (.ok none s)
  | unreadable {path : Path} {e : Error} (hfile : s.initPhaseFile = some path)
      (hload : Hint.load read path s.vars = .error e) (about : e.ofHintFile = true) :
      LoadResult read s (.error (.error e) s.unnamed)
  | closed {path : Path} {h : Hint} (hfile : s.initPhaseFile = some path)
      (hload : Hint.load read path s.vars = .ok h) (hlocked : s.locked = true) :
      LoadResult read s (.error (.error .hintReapplied) s.unnamed)
  | applied {path : Path} {h : Hint} {t : Solver} (hfile : s.initPhaseFile = some path)
      (hload : Hint.load read path s.vars = .ok h) (hopen : s.locked = false)
      (took : Took h s.unnamed t) : LoadResult read s (.ok (some h.summary) t)

/-- **All that `initPhases` can do.** -/
theorem initResult (hs : s.Aligned) (h : Hint) : InitResult h s (initPhases h s) := by
  by_cases hlocked : s.locked = true
  · have hrun : initPhases h s = .error (.error .hintReapplied) s := by simp [initPhases, hlocked]
    rw [hrun]
    exact .closed hlocked
  · rw [Bool.not_eq_true] at hlocked
    by_cases hsize : h.size = s.vars
    · have hbest : s.store.phases.best.size = h.phases.length := hs.phases.best.trans hsize.symm
      have htarget : s.store.phases.target.size = h.phases.length :=
        hs.phases.target.trans hsize.symm
      rw [initPhases_eq hlocked hsize hs.phases.best]
      refine .applied hlocked hsize ⟨fun v p hv hp => ?_, fun v hv => ?_, rfl⟩
      · exact ⟨PhaseArray.get_overlaid_of_isSet hbest hv hp,
          PhaseArray.get_overlaid_of_isSet htarget hv hp⟩
      · exact ⟨PhaseArray.get_overlaid_of_unset hbest hv,
          PhaseArray.get_overlaid_of_unset htarget hv⟩
    · have hrun : initPhases h s = .error (.error (.hintLength h.size s.vars)) s := by
        simp [initPhases, hlocked, hsize]
      rw [hrun]
      exact .length hlocked hsize

/-- **All that `loadInitialPhases` can do.** It never finds a hint too long or too short, since the
file was read with the number of variables in mind. -/
theorem loadResult (hs : s.Aligned) (read : Reader) :
    LoadResult read s (loadInitialPhases read s) := by
  cases hfile : s.initPhaseFile with
  | none =>
    have hrun : loadInitialPhases read s = .ok none s := by simp [loadInitialPhases, hfile]
    rw [hrun]
    exact .nothing hfile
  | some path =>
    -- The lock is looked at only after the file was read.
    rcases Hint.load_cases read path s.vars with ⟨h, hload, hsize⟩ | ⟨e, hload, habout⟩
    · have hrun : loadInitialPhases read s =
          (do initPhases h; return some h.summary : Change Solver _) s.unnamed := by
        have hload' : Hint.load read path { s with initPhaseFile := none }.vars = .ok h := hload
        simp [loadInitialPhases, hfile, hload', Except.mapError, unnamed]
      have hinit := initResult (s := s.unnamed) hs h
      rw [hrun, bind_run]
      generalize initPhases h s.unnamed = r at hinit
      cases hinit with
      | closed hlocked => exact .closed hfile hload hlocked
      | length _ hne => exact absurd hsize hne
      | applied hopen _ took => exact .applied hfile hload hopen took
    · have hrun : loadInitialPhases read s = .error (.error e) s.unnamed := by
        have hload' : Hint.load read path { s with initPhaseFile := none }.vars = .error e := hload
        simp [loadInitialPhases, hfile, hload', Except.mapError, unnamed]
      rw [hrun]
      exact .unreadable hfile hload habout

/-! ## Histories -/

/-- One operation on a solver, with the files as they are at that moment. -/
structure Step where
  files : Reader
  task : Task

/-- Carry out a step. -/
def Step.run (e : Step) (s : Solver) : Ended Solver Reply := (perform e.files e.task).carry s

/-- Carry out steps one after the other, those that fail included. -/
def proceed (steps : List Step) (s : Solver) : Solver :=
  steps.foldl (fun s e => (e.run s).state) s

/-- With files that stay the same, steps are tasks. -/
theorem run_eq_proceed (read : Reader) (tasks : List Task) (s : Solver) :
    run read tasks s = proceed (tasks.map (Step.mk read)) s := by
  rw [run, proceed, List.foldl_map]
  rfl

/-- The step takes a hint. -/
def Step.applies (e : Step) (s : Solver) : Bool :=
  match e.task, (e.run s).result with
  | .initPhases _, .ok _ => true
  | .loadInitialPhases, .ok (.summary (some _)) => true
  | _, _ => false

/-- The step begins a search. -/
def Step.Starts (e : Step) (s : Solver) : Prop :=
  e.task = .startSearch ∨ ∃ f, e.task = .search f ∧ s.vars = f.vars

/-- How many hints are taken in a history. -/
def applications : List Step → Solver → Nat
  | [], _ => 0
  | e :: later, s => (if e.applies s then 1 else 0) + applications later (e.run s).state

theorem durable_locked : Durable fun s => s.locked = true where
  toStable := stable_of_rest (fun _ _ h => h) fun _ _ h => h
  lock _ _ := rfl
  file _ _ h := h
  apply _ := keeps_onStore_of_rest (fun _ _ h => h) _

/-- **Nothing opens the window again.** -/
theorem keeps_locked_perform (read : Reader) (t : Task) :
    Keeps (fun s : Solver => s.locked = true) (perform read t) :=
  durable_locked.keeps_perform read (fun n _ => keeps_resize_of_rest (fun _ _ h => h) n)
    fun _ _ => keeps_onStore_of_rest (fun _ _ h => h) _

/-- A hint is only taken through an open window. -/
theorem initPhases_ok (hrun : initPhases h s = .ok () t) : s.locked = false ∧ t.locked = true := by
  by_cases hlocked : s.locked = true
  · simp [initPhases, hlocked] at hrun
  · rw [Bool.not_eq_true] at hlocked
    refine ⟨hlocked, ?_⟩
    by_cases hsize : h.size = s.vars
    · cases happly : onStore (Store.onPhases (Phases.apply h)) s with
      | error e u => simp [initPhases, hlocked, hsize, happly] at hrun
      | ok _ u =>
        obtain rfl : { u with locked := true } = t := by
          simpa [initPhases, hlocked, hsize, happly, startSearch] using hrun
        rfl
    · simp [initPhases, hlocked, hsize] at hrun

theorem loadInitialPhases_ok {read : Reader} {summary : Hint.Summary}
    (hrun : loadInitialPhases read s = .ok (some summary) t) :
    s.locked = false ∧ t.locked = true := by
  cases hfile : s.initPhaseFile with
  | none => simp [loadInitialPhases, hfile] at hrun
  | some path =>
    cases hload : Hint.load read path { s with initPhaseFile := none }.vars with
    | error e => simp [loadInitialPhases, hfile, hload, Except.mapError] at hrun
    | ok h =>
      cases hinit : initPhases h { s with initPhaseFile := none } with
      | error e u => simp [loadInitialPhases, hfile, hload, hinit, Except.mapError] at hrun
      | ok _ u =>
        obtain ⟨-, rfl⟩ : h.summary = summary ∧ u = t := by
          simpa [loadInitialPhases, hfile, hload, hinit, Except.mapError] using hrun
        exact initPhases_ok (s := { s with initPhaseFile := none }) hinit

theorem Step.run_initPhases (read : Reader) (text : String) (s : Solver) :
    Step.run ⟨read, .initPhases text⟩ s =
      match Store.hintOf text with
      | .error failure => ⟨.error failure, s⟩
      | .ok h =>
        match initPhases h s with
        | .ok _ t => ⟨.ok .done, t⟩
        | .error failure t => ⟨.error failure, t⟩ := by
  cases hhint : Store.hintOf text with
  | error failure => simp [run, carry, perform, hhint]
  | ok h => cases hrun : initPhases h s <;> simp [run, carry, perform, hhint, hrun]

theorem Step.run_loadInitialPhases (read : Reader) (s : Solver) :
    Step.run ⟨read, .loadInitialPhases⟩ s =
      match loadInitialPhases read s with
      | .ok summary t => ⟨.ok (.summary summary), t⟩
      | .error failure t => ⟨.error failure, t⟩ := by
  cases hrun : loadInitialPhases read s <;> simp [run, carry, perform, hrun]

/-- **A step that takes a hint closes the window behind it.** -/
theorem Step.locked_of_applies {e : Step} (he : e.applies s = true) :
    s.locked = false ∧ (e.run s).state.locked = true := by
  obtain ⟨read, task⟩ := e
  cases task with
  | initPhases text =>
    rw [run_initPhases]
    rw [applies, run_initPhases] at he
    cases hhint : Store.hintOf text with
    | error failure => simp [hhint] at he
    | ok h =>
      cases hrun : initPhases h s with
      | error failure u => simp [hhint, hrun] at he
      | ok _ u => simpa only [hrun] using initPhases_ok hrun
  | loadInitialPhases =>
    rw [run_loadInitialPhases]
    rw [applies, run_loadInitialPhases] at he
    cases hrun : loadInitialPhases read s with
    | error failure u => simp [hrun] at he
    | ok summary u =>
      cases summary with
      | none => simp [hrun] at he
      | some summary => exact loadInitialPhases_ok hrun
  | _ => simp [applies] at he

theorem applications_of_locked (hs : s.locked = true) (steps : List Step) :
    applications steps s = 0 := by
  induction steps generalizing s with
  | nil => rfl
  | cons e later ih =>
    have he : ¬ e.applies s = true := fun he => by
      rw [(Step.locked_of_applies he).1] at hs
      cases hs
    rw [applications, if_neg he, Nat.zero_add]
    exact ih (keeps_locked_perform e.files e.task s hs)

/-- **At most one hint is taken.** -/
theorem applications_le_one (steps : List Step) (s : Solver) : applications steps s ≤ 1 := by
  induction steps generalizing s with
  | nil => exact Nat.zero_le 1
  | cons e later ih =>
    rw [applications]
    -- Behind a step that takes a hint the window is closed, and no later one takes any.
    by_cases he : e.applies s = true
    · rw [if_pos he, applications_of_locked (Step.locked_of_applies he).2]
    · rw [if_neg he, Nat.zero_add]
      exact ih _

theorem Step.locked_of_starts {e : Step} (he : e.Starts s) : (e.run s).state.locked = true := by
  obtain ⟨read, task⟩ := e
  rcases he with rfl | ⟨f, rfl, hvars⟩
  · rfl
  · have hlocked := locked_search hvars
    unfold carry at hlocked
    cases hrun : search f s with
    | ok o t => simpa [run, carry, perform, hrun] using hlocked
    | error e t => simpa [run, carry, perform, hrun] using hlocked

theorem aligned_proceed (hs : s.Aligned) {steps : List Step}
    (hsteps : ∀ e ∈ steps, e.task.keepsHalves = true) : (proceed steps s).Aligned := by
  induction steps generalizing s with
  | nil => exact hs
  | cons e later ih =>
    obtain ⟨he, hlater⟩ := List.forall_mem_cons.1 hsteps
    exact ih (aligned_perform hs he e.files) hlater

/-- The solver would take the hint. -/
def Accepts (h : Hint) (s : Solver) : Prop := ∃ t, initPhases h s = .ok () t

/-- Name a file and load it. -/
def loadFrom (read : Reader) (path : Path) : Change Solver (Option Hint.Summary) := do
  setInitPhaseFile path
  loadInitialPhases read

theorem accepts_iff (hs : s.Aligned) : s.Accepts h ↔ s.locked = false ∧ h.size = s.vars := by
  unfold Accepts
  have hinit := initResult hs h
  generalize initPhases h s = r at hinit
  cases hinit with
  | closed hlocked => simp [hlocked]
  | length _ hsize => simp [hsize]
  | applied hopen hsize _ => simp [hopen, hsize]

/-- The step tries to apply a hint. -/
def Step.Attempts (e : Step) : Prop :=
  e.task = .loadInitialPhases ∨ ∃ text, e.task = .initPhases text

/-- **An attempt that fails is refused for a reason and leaves no trace**, except that a load uses
up the name of its file. -/
theorem Step.failed (hs : s.Aligned) {e : Step} {failure : Failure} (he : e.Attempts)
    (hfail : (e.run s).result = .error failure) :
    (∃ error, failure = .error error) ∧
      ((e.run s).state = s ∨ e.task = .loadInitialPhases ∧ (e.run s).state = s.unnamed) := by
  obtain ⟨read, task⟩ := e
  rcases he with rfl | ⟨text, rfl⟩
  · have hload := loadResult hs read
    rw [run_loadInitialPhases] at hfail ⊢
    generalize loadInitialPhases read s = r at hload hfail
    cases hload with
    | nothing => cases hfail
    | applied => cases hfail
    | unreadable =>
      cases hfail
      exact ⟨⟨_, rfl⟩, Or.inr ⟨rfl, rfl⟩⟩
    | closed =>
      cases hfail
      exact ⟨⟨_, rfl⟩, Or.inr ⟨rfl, rfl⟩⟩
  · cases hhint : Store.hintOf text with
    | error failure =>
      simp only [run_initPhases, hhint] at hfail ⊢
      cases hfail
      exact ⟨Store.hintOf_error hhint, Or.inl trivial⟩
    | ok h =>
      have hinit := initResult hs h
      simp only [run_initPhases, hhint] at hfail ⊢
      generalize initPhases h s = r at hinit hfail
      cases hinit with
      | applied => cases hfail
      | closed =>
        cases hfail
        exact ⟨⟨_, rfl⟩, Or.inl rfl⟩
      | length =>
        cases hfail
        exact ⟨⟨_, rfl⟩, Or.inl rfl⟩

/-- **What would be taken before a failed attempt would be taken after it.** -/
theorem Step.accepts_of_failed (hs : s.Aligned) {e : Step} {failure : Failure} (he : e.Attempts)
    (hfail : (e.run s).result = .error failure) :
    (∀ h, s.Accepts h → (e.run s).state.Accepts h) ∧
      ∀ read path, loadFrom read path (e.run s).state = loadFrom read path s := by
  rcases (failed hs he hfail).2 with hstate | ⟨-, hstate⟩
  · rw [hstate]
    exact ⟨fun _ h => h, fun _ _ => rfl⟩
  · rw [hstate]
    refine ⟨fun h haccepts => ?_, fun _ _ => rfl⟩
    have hs' : s.unnamed.Aligned := hs
    exact (accepts_iff hs').2 ((accepts_iff hs).1 haccepts)

/-- **Initial phases are applied at most once, only before a search, and all or nothing.** This is
about every history of a solver in which neither half of its store is resized alone, whatever the
files are at each step. -/
theorem hints_apply_once (options : Options) {steps : List Step}
    (hsteps : ∀ e ∈ steps, e.task.keepsHalves = true) :
    applications steps (ofOptions options) ≤ 1 ∧
    (∀ (before later : List Step) (e : Step), e.Starts (proceed before (ofOptions options)) →
      applications later (e.run (proceed before (ofOptions options))).state = 0) ∧
    ∀ s, proceed steps (ofOptions options) = s →
      (∀ h, InitResult h s (initPhases h s)) ∧
      (∀ read, LoadResult read s (loadInitialPhases read s)) ∧
      ∀ e : Step, ∀ failure, e.Attempts → (e.run s).result = .error failure →
        ((∃ error, failure = .error error) ∧
          ((e.run s).state = s ∨ e.task = .loadInitialPhases ∧ (e.run s).state = s.unnamed)) ∧
        (∀ h, s.Accepts h → (e.run s).state.Accepts h) ∧
          ∀ read path, loadFrom read path (e.run s).state = loadFrom read path s := by
  refine ⟨applications_le_one steps _, ?_, ?_⟩
  · intro before later e hstarts
    exact applications_of_locked (Step.locked_of_starts hstarts) later
  · rintro s rfl
    have hs := aligned_proceed (aligned_ofOptions options) hsteps
    refine ⟨initResult hs, loadResult hs, fun e failure he hfail => ?_⟩
    exact ⟨Step.failed hs he hfail, Step.accepts_of_failed hs he hfail⟩

/-- Attempts with a hint that is too short, with a file that is not there, and with a hint that
fits, twice. -/
def attempts : List Step :=
  [.resize 2, .initPhases "1", .setInitPhaseFile Store.inlineHint, .loadInitialPhases,
    .initPhases "0 1", .initPhases "0 1"].map (Step.mk fun _ => .error (.opening .notFound))

theorem hints_apply_once_attempts :
    (∀ e ∈ attempts, e.task.keepsHalves = true) ∧ applications attempts (ofOptions {}) ≤ 1 ∧
      InitResult ⟨Store.inlineHint, [.negative, .positive]⟩ (proceed attempts (ofOptions {}))
        (initPhases ⟨Store.inlineHint, [.negative, .positive]⟩
          (proceed attempts (ofOptions {}))) := by
  have hsteps : ∀ e ∈ attempts, e.task.keepsHalves = true := by decide
  obtain ⟨honce, -, hresults⟩ := hints_apply_once {} hsteps
  exact ⟨hsteps, honce, (hresults _ rfl).1 _⟩

example : applications attempts (ofOptions {}) = 1 := by decide +kernel

end Solver

end Polarity
