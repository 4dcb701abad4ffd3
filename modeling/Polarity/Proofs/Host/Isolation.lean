import Mathlib.Data.List.Induction
import Polarity.Proofs.Host.Lifecycle
import Polarity.Proofs.Search.Verdict
import Polarity.Proofs.Solver.Aligned

/-!
# Alarms and searches keep to their own flag

**Armed for** (`ArmedFor`). Whom a controller is armed for can be told from the history: it was armed
for an engine, with an answer that says so, and was neither disarmed nor torn down since. That is just
when the alarm has a handler, which acts on this engine (`alarm_proceed_iff`), no matter what became
of the solver in the meantime.

**Other engines** (`AgreeAt`). Requests to other engines are of no concern to a solver. If they are
taken out of a history (`without`), the solver is in the same state after it, and so all it answers
is the same.

**Theorem (`alarms_reach_armed`).** An alarm sets the flag of the engine that the controller is armed
for, and does nothing if it is armed for none. A search was stopped just in case the flag of its own
solver was set before it.
-/

namespace Polarity.Host

variable {h k : Host} {read : Reader} {e : Event} {id : Nat} {m : Moment} {history : List Moment}

/-! ## Whom a controller is armed for -/

/-- The event arms the controller for the engine, and is not refused. -/
def Moment.Arms (id : Nat) (m : Moment) (h : Host) : Prop :=
  ∃ timeout pending, m.event = .arm id timeout ∧ m.reply h = .scheduled pending

/-- The event takes the handlers away. -/
def Event.disarms : Event → Bool
  | .disarm | .teardown _ => true
  | _ => false

/-- In the course of a history the controller was armed for the engine, and it has been neither
disarmed nor torn down since. -/
def ArmedFor (id : Nat) (history : List Moment) (h : Host) : Prop :=
  ∃ before m later, history = before ++ m :: later ∧ m.Arms id (proceed before h) ∧
    ∀ n ∈ later, n.event.disarms = false

theorem armedFor_append_singleton :
    ArmedFor id (history ++ [m]) h ↔
      m.Arms id (proceed history h) ∨ ArmedFor id history h ∧ m.event.disarms = false := by
  constructor
  · rintro ⟨before, n, later, hsplit, harms, hlater⟩
    rcases List.eq_nil_or_concat later with rfl | ⟨between, last, rfl⟩
    · obtain ⟨rfl, hm⟩ := List.append_inj' hsplit rfl
      obtain rfl := List.singleton_inj.1 hm
      exact Or.inl harms
    · rw [List.concat_eq_append, ← List.cons_append, ← List.append_assoc] at hsplit
      obtain ⟨rfl, hm⟩ := List.append_inj' hsplit rfl
      obtain rfl := List.singleton_inj.1 hm
      simp only [List.concat_eq_append, List.mem_append, List.mem_singleton] at hlater
      exact Or.inr ⟨⟨before, n, between, rfl, harms, fun k hk => hlater k (Or.inl hk)⟩,
        hlater m (Or.inr rfl)⟩
  · rintro (harms | ⟨⟨before, n, later, rfl, harms, hlater⟩, hm⟩)
    · exact ⟨history, m, [], rfl, harms, nofun⟩
    · refine ⟨before, n, later ++ [m], by simp, harms, fun k hk => ?_⟩
      rcases List.mem_append.1 hk with hk | hk
      · exact hlater k hk
      · rwa [List.mem_singleton.1 hk]

/-- A controller is armed when it holds no engine. -/
theorem arms_iff (hc : h.controller.InOrder) :
    m.Arms id h ↔
      (∃ timeout, m.event = .arm id timeout) ∧ h.controller.handle = none ∧ id < h.seats.length := by
  obtain ⟨read, e⟩ := m
  constructor
  · rintro ⟨timeout, pending, rfl, hreply⟩
    refine ⟨⟨timeout, rfl⟩, ?_⟩
    by_contra hno
    rw [Moment.reply] at hreply
    by_cases hid : id < h.seats.length
    · rw [step_arm_of_active hid fun hidle => hno ⟨hidle, hid⟩] at hreply
      cases hreply
    · rw [step_arm_of_le (Nat.not_lt.1 hid)] at hreply
      cases hreply
  · rintro ⟨⟨timeout, rfl⟩, hidle, hid⟩
    exact ⟨timeout, _, rfl, congrArg Prod.fst (step_arm_of_idle hc hid hidle timeout)⟩

/-- To arm a controller gives the handler of the alarm to the engine, unless it is refused. -/
theorem alarm_next_arm_iff (hc : h.controller.InOrder) {i : Nat} (timeout : Option Nat) :
    (h.step read (.arm i timeout)).2.controller.alarm = some id ↔
      (i = id ∧ h.controller.handle = none ∧ id < h.seats.length) ∨
        h.controller.alarm = some id := by
  by_cases hidle : h.controller.handle = none
  · have hnone : h.controller.alarm = none := hc.alarm_of_idle hidle
    by_cases hi : i < h.seats.length
    · rw [step_arm_of_idle hc hi hidle, hnone]
      constructor
      · intro halarm
        obtain rfl : i = id := Option.some.inj halarm
        exact Or.inl ⟨rfl, hidle, hi⟩
      · rintro (⟨rfl, -⟩ | hno)
        · rfl
        · cases hno
    · rw [step_arm_of_le (Nat.not_lt.1 hi), hnone]
      constructor
      · intro halarm
        cases halarm
      · rintro (⟨rfl, -, hid⟩ | hno)
        · exact absurd hid hi
        · cases hno
  · rw [next_arm_of_active hidle]
    simp [hidle]

/-- **The handler of the alarm changes hands only when the controller is armed, disarmed or torn
down.** -/
theorem alarm_next_iff (hc : h.controller.InOrder) :
    (m.next h).controller.alarm = some id ↔
      m.Arms id h ∨ h.controller.alarm = some id ∧ m.event.disarms = false := by
  rw [arms_iff hc]
  obtain ⟨read, e⟩ := m
  unfold Moment.next
  by_cases he : e.steers = false
  · have hkeeps : e.disarms = false ∧ ∀ timeout, e ≠ .arm id timeout := by
      cases e <;> simp_all [Event.steers, Event.disarms]
    rw [controller_step_of_not_steers he]
    simp [hkeeps]
  · cases e with
    | arm i timeout =>
      have hevent : (∃ limit, Event.arm i timeout = .arm id limit) ↔ i = id := by simp
      have hkeeps : (Event.arm i timeout).disarms = false := rfl
      rw [alarm_next_arm_iff hc, hevent, hkeeps, eq_self, and_true]
    | disarm => simp [Event.disarms, step, Controller.disarm]
    | teardown i => simp [Event.disarms, step, Controller.teardown, Controller.disarm]
    | _ => exact absurd rfl he

/-- **Whom the alarm has its handler for can be told from the history.** -/
theorem alarm_proceed_iff (hc : h.controller.InOrder) (hnew : h.controller.alarm = none)
    (history : List Moment) :
    (proceed history h).controller.alarm = some id ↔ ArmedFor id history h := by
  induction history using List.reverseRecOn with
  | nil =>
    have hno : ¬ ArmedFor id [] h := by
      rintro ⟨before, m, later, hnil, -⟩
      simp at hnil
    simp [proceed, hnew, hno]
  | append_singleton before m ih =>
    rw [proceed_append, armedFor_append_singleton, ← ih]
    exact alarm_next_iff (inOrder_proceed hc before)

theorem lt_length_of_armedFor (hc : h.controller.InOrder) (ha : ArmedFor id history h) :
    id < (proceed history h).seats.length := by
  obtain ⟨before, m, later, rfl, harms, -⟩ := ha
  have hid := ((arms_iff (inOrder_proceed hc before)).1 harms).2.2
  rw [proceed_append]
  exact proceed_induction (P := fun k => id < k.seats.length) hid
    fun _ _ _ hlt => hlt.trans_le length_le_step

/-! ## Alarms -/

/-- **An alarm sets the flag of the engine that the controller is armed for.** -/
theorem step_alarm_of_armedFor (hc : h.controller.InOrder) (hnew : h.controller.alarm = none)
    (ha : ArmedFor id history h) (read : Reader) :
    ((proceed history h).state = .armed ∨ (proceed history h).state = .triggered) ∧
      (proceed history h).step read .alarm =
        (.flag (!(proceed history h).terminated id), (proceed history h).stopped id) := by
  have hid := lt_length_of_armedFor hc ha
  have halarm := (alarm_proceed_iff hc hnew history).2 ha
  obtain ⟨scheduled, hinstalled⟩ := (inOrder_proceed hc history).eq_installed halarm
  constructor
  · rw [state, hinstalled, Controller.state_installed]
    split
    · exact Or.inr rfl
    · exact Or.inl rfl
  · have hrequest : Event.alarm.request? (proceed history h).controller = some (id, false) := by
      rw [hinstalled]
      rfl
    have hsignal : ∀ s, Event.alarm ≠ .signal s := by simp
    rw [step_of_request read hid hrequest hsignal]
    rfl

/-- **An alarm does nothing when the controller is armed for no engine.** -/
theorem step_alarm_of_not_armedFor (hc : h.controller.InOrder) (hnew : h.controller.alarm = none)
    (ha : ∀ id, ¬ ArmedFor id history h) (read : Reader) :
    ((proceed history h).state = .idle ∨ (proceed history h).state = .finalizing) ∧
      (proceed history h).step read .alarm = (.unhandled, proceed history h) := by
  have halarm : (proceed history h).controller.alarm = none :=
    Option.eq_none_iff_forall_ne_some.2 fun id hid =>
      ha id ((alarm_proceed_iff hc hnew history).1 hid)
  refine ⟨(inOrder_proceed hc history).state_of_alarm_eq_none halarm, ?_⟩
  simp only [step, halarm]

/-- Until it is armed again, a controller that was disarmed is armed for no engine. -/
theorem not_armedFor_of_disarms {before later : List Moment} (hm : m.event.disarms = true)
    (hlater : ∀ n ∈ later, ∀ id timeout, n.event ≠ .arm id timeout) :
    ¬ ArmedFor id (before ++ m :: later) h := by
  induction later using List.reverseRecOn with
  | nil =>
    rw [armedFor_append_singleton]
    rintro (⟨timeout, pending, hevent, -⟩ | ⟨-, hno⟩)
    · rw [hevent] at hm
      cases hm
    · rw [hm] at hno
      cases hno
  | append_singleton later n ih =>
    rw [← List.cons_append, ← List.append_assoc, armedFor_append_singleton]
    rintro (⟨timeout, pending, hevent, -⟩ | ⟨harmed, -⟩)
    · exact hlater n (by simp) id timeout hevent
    · exact ih (fun k hk => hlater k (List.mem_append_left _ hk)) harmed

/-! ## Requests to other engines -/

/-- Two processes whose controllers are the same, and what is at one serial number too. -/
structure AgreeAt (id : Nat) (h k : Host) : Prop where
  controller : k.controller = h.controller
  length : k.seats.length = h.seats.length
  seat : k.seats[id]? = h.seats[id]?

theorem AgreeAt.refl (id : Nat) (h : Host) : AgreeAt id h h := ⟨rfl, rfl, rfl⟩

theorem AgreeAt.update (hk : AgreeAt id h k) (j : Nat) {f g : Seat → Seat}
    (hfg : j = id → ∀ seat, f seat = g seat) : AgreeAt id (h.update j f) (k.update j g) where
  controller := hk.controller
  length := by simpa using hk.length
  seat := by
    rw [Host.update, Host.update, List.getElem?_modify, List.getElem?_modify, hk.seat]
    by_cases hj : j = id
    · simp [hfg hj]
    · simp [hj]

/-- A change at another serial number. -/
theorem AgreeAt.update_left (hk : AgreeAt id h k) {j : Nat} (hj : j ≠ id) (f : Seat → Seat) :
    AgreeAt id (h.update j f) k where
  controller := hk.controller
  length := by simpa using hk.length
  seat := by
    rw [hk.seat, Host.update, List.getElem?_modify]
    simp [hj]

theorem AgreeAt.symm (hk : AgreeAt id h k) : AgreeAt id k h :=
  ⟨hk.controller.symm, hk.length.symm, hk.seat.symm⟩

theorem AgreeAt.trans {l : Host} (hk : AgreeAt id h k) (hl : AgreeAt id k l) : AgreeAt id h l :=
  ⟨hl.controller.trans hk.controller, hl.length.trans hk.length, hl.seat.trans hk.seat⟩

/-- A task of one solver is of no concern to another. -/
theorem agreeAt_perform {j : Nat} (hj : j ≠ id) (task : Solver.Task) :
    AgreeAt id (h.step read (.perform j task)).2 h := by
  simp only [step]
  cases h.solver? j with
  | none => exact .refl id h
  | some s => exact (AgreeAt.refl id h).update_left hj _

/-- **The same event has the same effect at the serial number.** -/
theorem AgreeAt.step (hk : AgreeAt id h k) (read : Reader) (e : Event) :
    AgreeAt id (h.step read e).2 (k.step read e).2 := by
  cases hrequest : e.request? h.controller with
  | some r =>
    obtain ⟨j, ignored⟩ := r
    rw [next_of_request hrequest, next_of_request (hk.controller ▸ hrequest), hk.length]
    split
    · exact hk
    · exact hk.update j fun _ _ => rfl
  | none =>
    cases e with
    | create options =>
      refine ⟨hk.controller, by simp [Host.step, hk.length], ?_⟩
      simp only [Host.step, List.getElem?_append, hk.length, hk.seat]
    | perform j task =>
      by_cases hj : j = id
      · subst hj
        have hsolver : k.solver? j = h.solver? j := by rw [solver?, hk.seat, solver?]
        simp only [Host.step, hsolver]
        cases h.solver? j with
        | none => exact hk
        | some s => exact hk.update j fun _ _ => rfl
      · exact (agreeAt_perform hj task).trans (hk.trans (agreeAt_perform hj task).symm)
    | arm j timeout =>
      by_cases hj : j < h.seats.length
      · rw [next_arm hj, next_arm (hk.length ▸ hj), hk.controller]
        exact ⟨rfl, hk.length, hk.seat⟩
      · rw [step_arm_of_le (Nat.not_lt.1 hj), step_arm_of_le (hk.length ▸ Nat.not_lt.1 hj)]
        exact hk
    | disarm => exact ⟨congrArg Controller.disarm hk.controller, hk.length, hk.seat⟩
    | teardown j =>
      have hupdate := hk.update j (f := Seat.retire) fun _ _ => rfl
      exact ⟨congrArg Controller.teardown hk.controller, hupdate.length, hupdate.seat⟩
    | release j => exact hk.update j fun _ _ => rfl
    | alarm =>
      have he : Event.alarm = .alarm ∨ ∃ s, Event.alarm = .signal s := Or.inl rfl
      rw [next_of_unheard hrequest he, next_of_unheard (hk.controller ▸ hrequest) he]
      exact hk
    | signal s =>
      have he : Event.signal s = .alarm ∨ ∃ t, Event.signal s = .signal t := Or.inr ⟨s, rfl⟩
      rw [next_of_unheard hrequest he, next_of_unheard (hk.controller ▸ hrequest) he]
      exact hk
    | terminate j => cases hrequest
    | onAlarm ignore j => cases hrequest

/-- What another engine is asked is of no concern. -/
theorem agreeAt_request {j : Nat} {ignored : Bool}
    (hrequest : e.request? h.controller = some (j, ignored)) (hj : j ≠ id) :
    AgreeAt id (h.step read e).2 h := by
  rw [next_of_request hrequest]
  split
  · exact .refl id h
  · exact (AgreeAt.refl id h).update_left hj _

/-- The event asks another engine to stop. -/
def Event.asksOther (id : Nat) (c : Controller) (e : Event) : Bool :=
  (e.request? c).any fun r => r.1 != id

/-- A history without the requests to other engines. -/
def without (id : Nat) : List Moment → Host → List Moment
  | [], _ => []
  | m :: later, h =>
    if m.event.asksOther id h.controller then without id later (m.next h)
    else m :: without id later (m.next h)

/-- **Requests to other engines leave no trace** at a serial number. -/
theorem AgreeAt.proceed_without (hk : AgreeAt id h k) (history : List Moment) :
    AgreeAt id (proceed history h) (proceed (without id history h) k) := by
  induction history generalizing h k with
  | nil => exact hk
  | cons m later ih =>
    rw [without]
    split
    · next hother =>
      obtain ⟨⟨j, ignored⟩, hrequest, hj⟩ := (Option.any_eq_true _ _).1 hother
      exact ih ((agreeAt_request hrequest (bne_iff_ne.1 hj)).trans hk)
    · exact ih (hk.step m.files m.event)

theorem AgreeAt.reply_perform (hk : AgreeAt id h k) (task : Solver.Task) :
    (k.step read (.perform id task)).1 = (h.step read (.perform id task)).1 := by
  have hsolver : k.solver? id = h.solver? id := by rw [solver?, hk.seat, solver?]
  simp only [Host.step, hsolver]
  cases h.solver? id <;> rfl

/-! ## Searches -/

variable {s : Solver} {f : Formula}

theorem seat_of_solver? (hsolver : h.solver? id = some s) : h.seats[id]? = some (.active s) := by
  obtain ⟨seat, hseat, hs⟩ := Option.bind_eq_some_iff.1 hsolver
  cases seat with
  | active t => rw [hseat, ← Option.some.inj hs]
  | retired e => cases hs

theorem terminated_of_solver? (hsolver : h.solver? id = some s) :
    h.terminated id = s.engine.terminated := by
  rw [terminated, engine?, seat_of_solver? hsolver]
  rfl

theorem solver?_update_active (hsolver : h.solver? id = some s) (t : Solver) :
    (h.update id fun _ => .active t).solver? id = some t := by
  simp [solver?, update, seat_of_solver? hsolver, Seat.solver?]

/-- What a task answers and leaves. -/
theorem step_perform (hsolver : h.solver? id = some s) (task : Solver.Task) :
    h.step read (.perform id task) =
      (.performed ((Solver.perform read task).carry s).result,
        h.update id fun _ => .active ((Solver.perform read task).carry s).state) := by
  simp only [step, hsolver]

/-- **A search was stopped just in case the flag of its own solver was set.** -/
theorem reply_search_iff (hsolver : h.solver? id = some s) (hvars : s.vars = f.vars) :
    (h.step read (.perform id (.search f))).1 = .performed (.ok (.outcome .unknown)) ↔
      h.terminated id = true := by
  rw [terminated_of_solver? hsolver, ← Solver.search_eq_unknown_iff hvars, step_perform hsolver]
  cases hsearch : Solver.search f s with
  | error e t => simp [Change.carry, Solver.perform, hsearch]
  | ok o t => simp [Change.carry, Solver.perform, hsearch]

/-- A search that was stopped has closed the window for hints and has done nothing else. -/
theorem solver?_search (hsolver : h.solver? id = some s) (hvars : s.vars = f.vars)
    (hflag : h.terminated id = true) :
    (h.step read (.perform id (.search f))).2.solver? id = some { s with locked := true } := by
  rw [terminated_of_solver? hsolver] at hflag
  rw [step_perform hsolver, solver?_update_active hsolver]
  simp [Change.carry, Solver.perform, Solver.search_of_terminated hvars hflag]

/-! ## Searches that end -/

/-- All solvers in use are aligned. -/
def Aligned (h : Host) : Prop := ∀ s, .active s ∈ h.seats → s.Aligned

/-- No task of the event resizes one half of a store alone. -/
def Event.keepsHalves : Event → Bool
  | .perform _ task => task.keepsHalves
  | _ => true

theorem Aligned.update (hh : h.Aligned) {g : Seat → Seat}
    (hg : ∀ seat ∈ h.seats, ∀ s, g seat = .active s → s.Aligned) : (h.update id g).Aligned := by
  intro s hs
  obtain ⟨j, hj⟩ := List.mem_iff_getElem?.1 hs
  rw [Host.update, List.getElem?_modify] at hj
  obtain ⟨seat, hseat, heq⟩ := Option.map_eq_some_iff.1 hj
  have hmem := List.mem_of_getElem? hseat
  split at heq
  · exact hg seat hmem s heq
  · exact hh s (heq ▸ hmem)

theorem Aligned.retire (hh : h.Aligned) (i : Nat) : (h.update i Seat.retire).Aligned := by
  apply hh.update
  intro seat hseat s hs
  cases hs

theorem aligned_step (hh : h.Aligned) (he : e.keepsHalves = true) :
    (h.step read e).2.Aligned := by
  apply next_cases (P := Aligned)
  case same =>
    intro _
    exact hh
  case create =>
    intro options hevent s hs
    rcases List.mem_append.1 hs with hs | hs
    · exact hh s hs
    · obtain rfl := Seat.active.inj (List.mem_singleton.1 hs)
      exact Solver.aligned_ofOptions options
  case perform =>
    intro i task t hevent hsolver
    subst hevent
    apply hh.update
    intro seat hseat s hs
    obtain rfl := Seat.active.inj hs
    exact Solver.aligned_perform (hh t (List.mem_of_getElem? (seat_of_solver? hsolver))) he read
  case request =>
    intro i hasks
    apply hh.update
    intro seat hseat s hs
    cases seat with
    | active t =>
      obtain rfl := Seat.active.inj hs
      exact hh t hseat
    | retired engine => cases hs
  case arm =>
    intro i timeout hevent hi
    exact hh
  case disarm =>
    intro hevent
    exact hh
  case teardown =>
    intro i hevent
    exact hh.retire i
  case release =>
    intro i hevent
    exact hh.retire i

theorem aligned_proceed (hhistory : ∀ m ∈ history, m.event.keepsHalves = true) :
    (proceed history {}).Aligned :=
  proceed_induction (fun _ hs => nomatch hs) fun m hm _ hh => aligned_step hh (hhistory m hm)

/-- A search of an aligned solver ends with a result, unless its formula is not well-formed. -/
theorem exists_outcome (hh : h.Aligned) (hsolver : h.solver? id = some s) (hf : f.WellFormed)
    (hvars : s.vars = f.vars) :
    ∃ o, (h.step read (.perform id (.search f))).1 = .performed (.ok (.outcome o)) := by
  have hs := hh s (List.mem_of_getElem? (seat_of_solver? hsolver))
  obtain ⟨k, o, t, -, -, hsearch, -⟩ :=
    Solver.search_ends hf ⟨hs.assignment.1, hvars, hvars ▸ hs.phases⟩
  refine ⟨o, ?_⟩
  rw [step_perform hsolver]
  simp [Change.carry, Solver.perform, hsearch]

/-! ## After a history -/

/-- Alarms reach the engine that the controller is armed for, and no other. -/
structure AlarmsReach (history : List Moment) (h : Host) : Prop where
  armed : ∀ id, ArmedFor id history {} → ∀ read,
    (h.state = .armed ∨ h.state = .triggered) ∧
      h.step read .alarm = (.flag (!h.terminated id), h.stopped id)
  unarmed : (∀ id, ¬ ArmedFor id history {}) → ∀ read,
    (h.state = .idle ∨ h.state = .finalizing) ∧ h.step read .alarm = (.unhandled, h)
  changed : ∀ read j, (h.step read .alarm).2.terminated j ≠ h.terminated j →
    (h.state = .armed ∨ h.state = .triggered) ∧ ArmedFor j history {}
  disarmed : ∀ before m later, history = before ++ m :: later → m.event.disarms = true →
    (∀ n ∈ later, ∀ id timeout, n.event ≠ .arm id timeout) →
      ∀ read, h.step read .alarm = (.unhandled, h)

/-- A search is stopped by the flag of its own solver, and by no other. -/
structure SearchesHeed (history : List Moment) (h : Host) : Prop where
  stopped : ∀ id s (f : Formula), h.solver? id = some s → s.vars = f.vars → ∀ read,
    (h.step read (.perform id (.search f))).1 = .performed (.ok (.outcome .unknown)) ↔
      h.terminated id = true
  untouched : ∀ id s (f : Formula), h.solver? id = some s → s.vars = f.vars →
    h.terminated id = true → ∀ read,
      (h.step read (.perform id (.search f))).2.solver? id = some { s with locked := true }
  ended : (∀ m ∈ history, m.event.keepsHalves = true) →
    ∀ id s (f : Formula), h.solver? id = some s → s.vars = f.vars → f.WellFormed → ∀ read,
      ∃ o, (h.step read (.perform id (.search f))).1 = .performed (.ok (.outcome o))
  others : ∀ id task read,
    ((proceed (without id history {}) {}).step read (.perform id task)).1 =
      (h.step read (.perform id task)).1

theorem alarmsReach_proceed (history : List Moment) :
    AlarmsReach history (proceed history {}) where
  armed id ha := step_alarm_of_armedFor (.idle false) rfl ha
  unarmed ha := step_alarm_of_not_armedFor (.idle false) rfl ha
  changed read j hchanged := by
    by_cases ha : ∃ id, ArmedFor id history {}
    · obtain ⟨id, ha⟩ := ha
      obtain ⟨hstate, hstep⟩ := step_alarm_of_armedFor (.idle false) rfl ha read
      refine ⟨hstate, ?_⟩
      by_contra hj
      -- Then it is the flag of another engine that the alarm sets.
      have hne : id ≠ j := fun hid => hj (hid ▸ ha)
      refine hchanged ?_
      rw [hstep, Bool.eq_iff_iff, terminated_stopped (lt_length_of_armedFor (.idle false) ha)]
      simp [hne]
    · have hstep := (step_alarm_of_not_armedFor (.idle false) rfl (not_exists.1 ha) read).2
      rw [hstep] at hchanged
      exact absurd rfl hchanged
  disarmed before m later hsplit hm hlater read := by
    subst hsplit
    exact (step_alarm_of_not_armedFor (.idle false) rfl
      (fun _ => not_armedFor_of_disarms hm hlater) read).2

theorem searchesHeed_proceed (history : List Moment) :
    SearchesHeed history (proceed history {}) where
  stopped _ _ _ hsolver hvars _ := reply_search_iff hsolver hvars
  untouched _ _ _ hsolver hvars hflag _ := solver?_search hsolver hvars hflag
  ended hhistory _ _ _ hsolver hvars hf _ :=
    exists_outcome (aligned_proceed hhistory) hsolver hf hvars
  others id task _ := ((AgreeAt.refl id {}).proceed_without history).reply_perform task

/-- **Alarms reach the armed solver, and searches heed their own flag**, whatever happened before,
also if the armed solver was released in the meantime and another one is in use. -/
theorem alarms_reach_armed (history : List Moment) :
    AlarmsReach history (proceed history {}) ∧ SearchesHeed history (proceed history {}) :=
  ⟨alarmsReach_proceed history, searchesHeed_proceed history⟩

/-- A solver for which a controller is armed is released, another one takes its place, and there is
an alarm. -/
def replaced : List Moment :=
  [.create {}, .arm 0 none, .release 0, .create {}, .alarm].map (Moment.mk noFiles)

theorem alarms_reach_armed_replaced :
    (proceed replaced {}).step noFiles .alarm = (.flag false, (proceed replaced {}).stopped 0) ∧
      (∃ o, ((proceed replaced {}).step noFiles (.perform 1 (.search {}))).1 =
        .performed (.ok (.outcome o)) ∧ o ≠ .unknown) ∧
      (proceed (replaced ++ [⟨noFiles, .disarm⟩]) {}).step noFiles .alarm =
        (.unhandled, proceed (replaced ++ [⟨noFiles, .disarm⟩]) {}) := by
  obtain ⟨halarms, hsearches⟩ := alarms_reach_armed replaced
  have harmed : ArmedFor 0 replaced {} :=
    ⟨[⟨noFiles, .create {}⟩], _, _, rfl, ⟨none, false, rfl, rfl⟩, by decide⟩
  have hsolver : (proceed replaced {}).solver? 1 = some (.ofOptions {}) := rfl
  obtain ⟨o, ho⟩ :=
    hsearches.ended (by decide) 1 _ {} hsolver rfl ⟨by decide, by decide⟩ noFiles
  refine ⟨(halarms.armed 0 harmed noFiles).2, ⟨o, ho, ?_⟩, ?_⟩
  · rintro rfl
    have hflag := (hsearches.stopped 1 _ {} hsolver rfl noFiles).1 ho
    exact absurd hflag (by decide +kernel)
  · exact (alarms_reach_armed (replaced ++ [⟨noFiles, .disarm⟩])).1.disarmed replaced _ [] rfl rfl
      nofun noFiles

end Polarity.Host
