import Mathlib.Tactic.ByContra
import Polarity.Proofs.Host.Requests

/-!
# The life of a controller

The state of a controller is read off the engine it holds, whether it was disarmed, and the flag of
that engine. These are written by different events, the flag also from outside, and the handlers, the
guard and the alarm are kept apart from them.

**In order** (`Controller.InOrder`). A controller that was idle at first has one of three shapes:
it holds no engine and nothing is installed, it holds an engine and all handlers are installed for it,
or it holds an engine and was disarmed. Each event leads from shape to shape (`inOrder_step`).

**Theorem (`controller_lifecycle`).** In every history the state says what is installed
(`Controller.Fits`), and what each event does to the state is as it should be (`Moves`). A controller
that was triggered is armed again only after a teardown and then a new arming.
-/

namespace Polarity

namespace Controller

variable {c : Controller} {engine : Nat} {terminated : Nat → Bool}

/-! ## Shapes -/

/-- A controller with all handlers installed for an engine. -/
def installed (engine : Nat) (scheduled : Bool) : Controller where
  handle := some engine
  handlers := Signal.fatal.map fun s => (s, engine)
  alarm := some engine
  scheduled := scheduled

/-- The three shapes of a controller. -/
inductive InOrder : Controller → Prop
  | idle (ignoreAlarm : Bool) : InOrder { ignoreAlarm }
  | active (engine : Nat) (scheduled : Bool) : InOrder (installed engine scheduled)
  | disarmed (engine : Nat) :
      InOrder { handle := some engine, ignoreAlarm := true, finalizing := true }

/-- What a state says about handlers, guard and alarm. -/
def Fits (c : Controller) : State → Prop
  | .idle => c.handlers = [] ∧ c.alarm = none ∧ c.scheduled = false
  | .armed | .triggered => c.ignoreAlarm = false ∧ ∃ engine, c.handle = some engine ∧
      c.handlers = Signal.fatal.map (fun s => (s, engine)) ∧ c.alarm = some engine
  | .finalizing => c.handlers = [] ∧ c.alarm = none ∧ c.scheduled = false ∧ c.ignoreAlarm = true

theorem state_eq_idle_iff : c.state terminated = .idle ↔ c.handle = none := by
  unfold state
  cases c.handle with
  | none => simp
  | some engine =>
    cases c.finalizing <;> cases h : terminated engine <;> simp [h]

theorem state_installed (scheduled : Bool) :
    (installed engine scheduled).state terminated =
      if terminated engine = true then .triggered else .armed := rfl

theorem InOrder.fits (hc : c.InOrder) (terminated : Nat → Bool) : c.Fits (c.state terminated) := by
  cases hc with
  | idle => exact ⟨rfl, rfl, rfl⟩
  | disarmed => exact ⟨rfl, rfl, rfl, rfl⟩
  | active engine scheduled =>
    rw [state_installed]
    split <;> exact ⟨rfl, engine, rfl, rfl, rfl⟩

theorem InOrder.alarm_of_idle (hc : c.InOrder) (hidle : c.handle = none) : c.alarm = none := by
  cases hc with
  | idle => rfl
  | active => cases hidle
  | disarmed => cases hidle

theorem InOrder.eq_installed (hc : c.InOrder) (halarm : c.alarm = some engine) :
    ∃ scheduled, c = installed engine scheduled := by
  cases hc with
  | idle => cases halarm
  | disarmed => cases halarm
  | active other scheduled =>
    obtain rfl : other = engine := Option.some.inj halarm
    exact ⟨scheduled, rfl⟩

theorem InOrder.state_of_alarm_eq_none (hc : c.InOrder) (halarm : c.alarm = none) :
    c.state terminated = .idle ∨ c.state terminated = .finalizing := by
  cases hc with
  | idle => exact Or.inl rfl
  | disarmed => exact Or.inr rfl
  | active => cases halarm

/-! ## Operations -/

/-- Arming a controller that holds no engine installs all handlers. -/
theorem InOrder.carry_arm (hc : c.InOrder) (hidle : c.handle = none) (timeout : Option Nat) :
    (arm engine timeout).carry c = ⟨.ok (), installed engine (schedules timeout)⟩ := by
  cases hc with
  | idle => simp [arm, Change.carry, Change.ensure, installed]
  | active => cases hidle
  | disarmed => cases hidle

/-- A controller that holds an engine is not armed. -/
theorem carry_arm_of_ne (hc : c.handle ≠ none) (timeout : Option Nat) :
    (arm engine timeout).carry c = ⟨.error (.fault .controllerActive), c⟩ := by
  simp [arm, Change.carry, Change.ensure, hc]

theorem InOrder.disarm (hc : c.InOrder) : c.disarm.InOrder := by
  cases hc with
  | idle => exact .idle true
  | active engine => exact .disarmed engine
  | disarmed engine => exact .disarmed engine

theorem InOrder.teardown (hc : c.InOrder) : c.teardown.InOrder := by
  cases hc <;> exact .idle true

theorem InOrder.state_disarm (hc : c.InOrder) :
    c.disarm.state terminated =
      match c.state terminated with
      | .armed | .triggered => .finalizing
      | s => s := by
  cases hc with
  | idle => rfl
  | disarmed => rfl
  | active engine scheduled =>
    rw [state_installed]
    cases terminated engine <;> rfl

end Controller

namespace Host

variable {h : Host} {read : Reader} {e : Event} {id : Nat}

/-- The event works on the controller and not only on engines. -/
def Event.steers : Event → Bool
  | .arm .. | .disarm | .teardown _ => true
  | _ => false

/-- An idle controller is armed. -/
theorem step_arm_of_idle (hc : h.controller.InOrder) (hid : id < h.seats.length)
    (hidle : h.controller.handle = none) (timeout : Option Nat) :
    h.step read (.arm id timeout) = (.scheduled (Controller.schedules timeout),
      { h with controller := .installed id (Controller.schedules timeout) }) := by
  obtain ⟨engine, hengine⟩ := exists_engine? hid
  simp only [step, hengine, hc.carry_arm hidle]
  rfl

/-- A controller that holds an engine refuses to be armed. -/
theorem step_arm_of_active (hid : id < h.seats.length) (hactive : h.controller.handle ≠ none)
    (timeout : Option Nat) :
    h.step read (.arm id timeout) = (.refused (.fault .controllerActive), h) := by
  obtain ⟨engine, hengine⟩ := exists_engine? hid
  simp only [step, hengine, Controller.carry_arm_of_ne hactive]

theorem next_arm_of_active (hactive : h.controller.handle ≠ none) (timeout : Option Nat) :
    (h.step read (.arm id timeout)).2 = h := by
  by_cases hid : id < h.seats.length
  · rw [step_arm_of_active hid hactive]
  · rw [step_arm_of_le (Nat.not_lt.1 hid)]

theorem controller_step_of_not_steers (he : e.steers = false) :
    (h.step read e).2.controller = h.controller := by
  apply next_cases (P := fun k => k.controller = h.controller)
  case arm =>
    intro id timeout hevent
    rw [hevent] at he
    cases he
  case disarm =>
    intro hevent
    rw [hevent] at he
    cases he
  case teardown =>
    intro id hevent
    rw [hevent] at he
    cases he
  all_goals intros; rfl

/-- **Each event leads from shape to shape.** -/
theorem inOrder_step (hc : h.controller.InOrder) : (h.step read e).2.controller.InOrder := by
  apply next_cases (P := fun k => k.controller.InOrder)
  case arm =>
    intro id timeout hevent hid
    by_cases hidle : h.controller.handle = none
    · rw [hc.carry_arm hidle]
      exact .active id _
    · rw [Controller.carry_arm_of_ne hidle]
      exact hc
  case disarm =>
    intro hevent
    exact hc.disarm
  case teardown =>
    intro id hevent
    exact hc.teardown
  all_goals intros; exact hc

theorem inOrder_proceed (hc : h.controller.InOrder) (history : List Moment) :
    (proceed history h).controller.InOrder :=
  proceed_induction (P := fun h => h.controller.InOrder) hc fun _ _ _ => inOrder_step

/-! ## States -/

/-- What each event does to the state of the controller. -/
structure Moves (h : Host) : Prop where
  arm : ∀ read id timeout, id < h.seats.length → h.state = .idle →
    (h.step read (.arm id timeout)).1 = .scheduled (Controller.schedules timeout) ∧
      (h.step read (.arm id timeout)).2.controller.handle = some id ∧
      (h.step read (.arm id timeout)).2.state =
        if h.terminated id = true then .triggered else .armed
  refused : ∀ read id timeout, id < h.seats.length → h.state ≠ .idle →
    h.step read (.arm id timeout) = (.refused (.fault .controllerActive), h)
  disarm : ∀ read, (h.step read .disarm).2.state =
    match h.state with
    | .armed | .triggered => .finalizing
    | s => s
  teardown : ∀ read id, (h.step read (.teardown id)).2.state = .idle
  other : ∀ read e, e.steers = false → (h.step read e).2.state ≠ h.state →
    h.state = .armed ∧ (h.step read e).2.state = .triggered
  triggered : ∀ read e id, e.steers = false → h.state = .armed → h.controller.handle = some id →
    ((h.step read e).2.state = .triggered ↔ (h.step read e).2.terminated id = true)

theorem moves_of_inOrder (hc : h.controller.InOrder) : h.Moves where
  arm read id timeout hid hidle := by
    have hnone : h.controller.handle = none := Controller.state_eq_idle_iff.1 hidle
    rw [step_arm_of_idle hc hid hnone]
    exact ⟨rfl, rfl, rfl⟩
  refused read id timeout hid hactive := by
    have hsome : h.controller.handle ≠ none := fun hnone =>
      hactive (Controller.state_eq_idle_iff.2 hnone)
    exact step_arm_of_active hid hsome timeout
  disarm read := hc.state_disarm
  teardown read id := rfl
  other read e he hne := by
    unfold state at hne ⊢
    rw [controller_step_of_not_steers he] at hne ⊢
    generalize h.controller = c at hc hne ⊢
    cases hc with
    | idle => exact absurd rfl hne
    | disarmed => exact absurd rfl hne
    | active engine scheduled =>
      -- The flag of the engine can only have become set.
      rw [Controller.state_installed, Controller.state_installed] at hne ⊢
      have hkept : h.terminated engine = true → (h.step read e).2.terminated engine = true :=
        fun hset => (terminated_step_iff read).2 (Or.inl hset)
      cases hbefore : h.terminated engine <;> cases hafter : (h.step read e).2.terminated engine <;>
        simp_all
  triggered read e id he harmed hhandle := by
    unfold state at harmed ⊢
    rw [controller_step_of_not_steers he]
    generalize h.controller = c at hc harmed hhandle ⊢
    cases hc with
    | idle => cases hhandle
    | disarmed => cases harmed
    | active engine scheduled =>
      obtain rfl : engine = id := Option.some.inj hhandle
      rw [Controller.state_installed]
      split <;> simp_all

theorem state_step_of_not_armed (hc : h.controller.InOrder) (he : e.steers = false)
    (harmed : h.state ≠ .armed) : (h.step read e).2.state = h.state := by
  by_contra hne
  exact harmed ((moves_of_inOrder hc).other read e he hne).1

/-- Without a teardown, a controller that is triggered or finalizing stays one of the two. -/
theorem state_proceed_of_no_teardown (hc : h.controller.InOrder) {later : List Moment}
    (hlater : ∀ m ∈ later, ∀ id, m.event ≠ .teardown id)
    (hstate : h.state = .triggered ∨ h.state = .finalizing) :
    (proceed later h).state = .triggered ∨ (proceed later h).state = .finalizing := by
  let P (h : Host) : Prop := h.controller.InOrder ∧ (h.state = .triggered ∨ h.state = .finalizing)
  suffices hP : P (proceed later h) from hP.2
  refine proceed_induction ⟨hc, hstate⟩ fun m hm h ⟨hc, hstate⟩ => ⟨inOrder_step hc, ?_⟩
  obtain ⟨read, e⟩ := m
  have hmoves := moves_of_inOrder hc
  unfold Moment.next
  by_cases he : e.steers = false
  · rwa [state_step_of_not_armed hc he fun harmed => by simp [harmed] at hstate]
  · cases e with
    | arm id timeout =>
      have hactive : h.controller.handle ≠ none := fun hnone => by
        rw [state, Controller.state_eq_idle_iff.2 hnone] at hstate
        simp at hstate
      rwa [next_arm_of_active hactive]
    | disarm =>
      rw [hmoves.disarm read]
      rcases hstate with hstate | hstate <;> simp [hstate]
    | teardown id => exact absurd rfl (hlater _ hm id)
    | _ => exact absurd rfl he

/-- Without an arming, an idle controller stays idle. -/
theorem state_proceed_of_no_arm (hc : h.controller.InOrder) {later : List Moment}
    (hlater : ∀ m ∈ later, ∀ id timeout, m.event ≠ .arm id timeout) (hstate : h.state = .idle) :
    (proceed later h).state = .idle := by
  let P (h : Host) : Prop := h.controller.InOrder ∧ h.state = .idle
  suffices hP : P (proceed later h) from hP.2
  refine proceed_induction ⟨hc, hstate⟩ fun m hm h ⟨hc, hstate⟩ => ⟨inOrder_step hc, ?_⟩
  obtain ⟨read, e⟩ := m
  have hmoves := moves_of_inOrder hc
  unfold Moment.next
  by_cases he : e.steers = false
  · rwa [state_step_of_not_armed hc he fun harmed => by simp [harmed] at hstate]
  · cases e with
    | arm id timeout => exact absurd rfl (hlater _ hm id timeout)
    | disarm => rw [hmoves.disarm read, hstate]
    | teardown id => exact hmoves.teardown read id
    | _ => exact absurd rfl he

/-- **Between being triggered and being armed again** there are a teardown and then an arming. -/
theorem exists_teardown_arm (hc : h.controller.InOrder) {later : List Moment}
    (hbefore : h.state = .triggered) (hafter : (proceed later h).state = .armed) :
    ∃ first t between a last, later = first ++ t :: (between ++ a :: last) ∧
      (∃ id, t.event = .teardown id) ∧ ∃ id timeout, a.event = .arm id timeout := by
  have hteardown : ∃ t ∈ later, ∃ id, t.event = .teardown id := by
    by_contra hnone
    have hstate := state_proceed_of_no_teardown hc
      (fun m hm id he => hnone ⟨m, hm, id, he⟩) (Or.inl hbefore)
    simp [hafter] at hstate
  obtain ⟨t, ht, id, htid⟩ := hteardown
  obtain ⟨first, rest, rfl⟩ := List.append_of_mem ht
  rw [proceed_append] at hafter
  have hc' := inOrder_proceed hc first
  -- Right after the teardown the controller is idle.
  have hidle : (t.next (proceed first h)).state = .idle := by
    rw [Moment.next, htid]
    exact (moves_of_inOrder hc').teardown t.files id
  have harm : ∃ a ∈ rest, ∃ id timeout, a.event = .arm id timeout := by
    by_contra hnone
    have hstate : (proceed (t :: rest) (proceed first h)).state = .idle :=
      state_proceed_of_no_arm (inOrder_step hc')
        (fun m hm id timeout he => hnone ⟨m, hm, id, timeout, he⟩) hidle
    simp [hafter] at hstate
  obtain ⟨a, ha, harm⟩ := harm
  obtain ⟨between, last, rfl⟩ := List.append_of_mem ha
  exact ⟨first, t, between, a, last, rfl, ⟨id, htid⟩, harm⟩

/-- **The life of a controller.** Whatever has happened since a controller was new, its state says
what is installed, each event moves it as it should, and from being triggered it does not come to be
armed but by a teardown and a new arming. -/
theorem controller_lifecycle (seats : List Seat) (history : List Moment) :
    let h := proceed history { seats }
    h.controller.Fits h.state ∧ h.Moves ∧
      ∀ later, h.state = .triggered → (proceed later h).state = .armed →
        ∃ first t between a last, later = first ++ t :: (between ++ a :: last) ∧
          (∃ id, t.event = .teardown id) ∧ ∃ id timeout, a.event = .arm id timeout := by
  intro h
  have hc : h.controller.InOrder := inOrder_proceed (h := { seats }) (.idle false) history
  exact ⟨hc.fits h.terminated, moves_of_inOrder hc, fun later => exists_teardown_arm hc⟩

/-- A controller is armed, its alarm comes, it is torn down, and it is armed for another solver. -/
def twoLives : List Moment :=
  [.create {}, .arm 0 (some 1500), .alarm, .disarm, .teardown 0, .create {}, .arm 1 none].map
    (Moment.mk noFiles)

theorem controller_lifecycle_twoLives :
    let h := proceed (twoLives.take 3) {}
    h.controller.Fits .triggered ∧ (h.step noFiles .disarm).2.state = .finalizing ∧
      h.step noFiles (.arm 0 none) = (.refused (.fault .controllerActive), h) ∧
      ∃ first t between a last, twoLives.drop 3 = first ++ t :: (between ++ a :: last) ∧
        (∃ id, t.event = .teardown id) ∧ ∃ id timeout, a.event = .arm id timeout := by
  obtain ⟨hfits, hmoves, hagain⟩ := controller_lifecycle [] (twoLives.take 3)
  have hstate : (proceed (twoLives.take 3) {}).state = .triggered := by decide +kernel
  have hactive : (proceed (twoLives.take 3) {}).state ≠ .idle := by simp [hstate]
  have hafter : (proceed (twoLives.drop 3) (proceed (twoLives.take 3) {})).state = .armed := by
    decide +kernel
  refine ⟨hstate ▸ hfits, ?_, hmoves.refused noFiles 0 none (by decide +kernel) hactive,
    hagain _ hstate hafter⟩
  rw [hmoves.disarm noFiles, hstate]

end Host

end Polarity
