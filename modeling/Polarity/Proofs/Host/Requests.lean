import Polarity.Host
import Polarity.Proofs.Search.Flag

/-!
# Requests to stop

**Histories.** A `Moment` is an event with the files as they are at that moment, and `proceed` lets
the moments of a history pass one after the other.

**Requests** (`Event.request?`). There are four ways to ask an engine to stop: through its solver or
any handle, through the action of the alarm with a guard in front of it, by an alarm that is
delivered, and by a fatal signal. All other events leave the flags as they are. So after an event a
flag is set just in case it was set before or the event asked for it (`terminated_step_iff`), and
after a history just in case it was set before or some event asked for it (`terminated_proceed_iff`).

**Theorem (`stop_requested_once`).** Of all requests for one flag that no guard keeps back the first
one says that it set the flag, and no other does.
-/

namespace Polarity

namespace Host

variable {h : Host} {read : Reader} {e : Event} {id j : Nat}

/-! ## Histories -/

/-- An event, with the files as they are at that moment. -/
structure Moment where
  files : Reader
  event : Event

/-- What the event answers. -/
def Moment.reply (m : Moment) (h : Host) : Reply := (h.step m.files m.event).1

/-- The process after the event. -/
def Moment.next (m : Moment) (h : Host) : Host := (h.step m.files m.event).2

/-- The process after a history. -/
def proceed (history : List Moment) (h : Host) : Host := history.foldl (fun h m => m.next h) h

/-- With files that stay the same, a history is a list of events. -/
theorem run_eq_proceed (read : Reader) (events : List Event) :
    run read events = proceed (events.map (Moment.mk read)) {} := by
  rw [run, proceed, List.foldl_map]
  rfl

theorem proceed_append (before after : List Moment) (h : Host) :
    proceed (before ++ after) h = proceed after (proceed before h) :=
  List.foldl_append

/-- **What each moment keeps, a history keeps.** -/
theorem proceed_induction {P : Host → Prop} {history : List Moment} (hstart : P h)
    (hstep : ∀ m ∈ history, ∀ h, P h → P (m.next h)) : P (proceed history h) := by
  induction history generalizing h with
  | nil => exact hstart
  | cons m later ih =>
    obtain ⟨hm, hlater⟩ := List.forall_mem_cons.1 hstep
    exact ih (hm h hstart) hlater

/-! ## Seats -/

theorem engine?_eq_none_iff : h.engine? id = none ↔ h.seats.length ≤ id := by
  rw [engine?, Option.map_eq_none_iff, List.getElem?_eq_none_iff]

theorem exists_engine? (hid : id < h.seats.length) : ∃ e, h.engine? id = some e := by
  rw [← Option.ne_none_iff_exists', Ne, engine?_eq_none_iff]
  omega

theorem engine?_update (f : Seat → Seat) :
    (h.update id f).engine? j =
      if id = j then h.seats[j]?.map fun seat => (f seat).engine else h.engine? j := by
  by_cases hid : id = j <;> simp [update, engine?, hid, Function.comp_def]

@[simp] theorem length_update (f : Seat → Seat) :
    (h.update id f).seats.length = h.seats.length := List.length_modify ..

@[simp] theorem controller_update (f : Seat → Seat) :
    (h.update id f).controller = h.controller := rfl

/-- A change at one place that leaves the flag there as it is leaves all flags as they are. -/
theorem terminated_update {f : Seat → Seat}
    (hf : ∀ seat, h.seats[id]? = some seat → (f seat).engine.terminated = seat.engine.terminated) :
    (h.update id f).terminated j = h.terminated j := by
  unfold terminated
  rw [engine?_update]
  by_cases hid : id = j
  · subst hid
    rw [if_pos rfl, engine?]
    cases hseat : h.seats[id]? with
    | none => rfl
    | some seat => exact hf seat hseat
  · rw [if_neg hid]

theorem update_congr {f g : Seat → Seat}
    (hfg : ∀ seat, h.seats[id]? = some seat → f seat = g seat) : h.update id f = h.update id g := by
  refine congrArg (Host.mk · h.controller) (List.ext_getElem? fun j => ?_)
  rw [List.getElem?_modify, List.getElem?_modify]
  cases hseat : h.seats[j]? with
  | none => rfl
  | some seat =>
    by_cases hid : id = j
    · subst hid
      simp [hfg seat hseat]
    · simp [hid]

theorem update_eq_self {f : Seat → Seat} (hf : ∀ seat, h.seats[id]? = some seat → f seat = seat) :
    h.update id f = h := by
  rw [update_congr (g := fun seat => seat) hf]
  exact congrArg (Host.mk · h.controller) (List.modify_id ..)

theorem engine_of_engine? {engine : Engine} {seat : Seat} (hengine : h.engine? id = some engine)
    (hseat : h.seats[id]? = some seat) : seat.engine = engine := by
  rw [engine?, hseat] at hengine
  exact Option.some.inj hengine

theorem engine_withEngine (seat : Seat) (e : Engine) : (seat.withEngine e).engine = e := by
  cases seat <;> rfl

theorem withEngine_engine (seat : Seat) : seat.withEngine seat.engine = seat := by
  cases seat <;> rfl

theorem withEngine_eq {α : Type} {engine : Engine} (hengine : h.engine? id = some engine)
    (f : Engine → α × Engine) :
    h.withEngine id f = (some (f engine).1, h.update id (·.withEngine (f engine).2)) := by
  rw [withEngine, hengine]

theorem withEngine_of_le {α : Type} (hid : h.seats.length ≤ id) (f : Engine → α × Engine) :
    h.withEngine id f = (none, h) := by
  rw [withEngine, engine?_eq_none_iff.2 hid]

/-- The process with the flag of an engine set. -/
def stopped (id : Nat) (h : Host) : Host :=
  h.update id fun seat => seat.withEngine seat.engine.terminate.2

theorem terminated_stopped (hid : id < h.seats.length) :
    (h.stopped id).terminated j = true ↔ h.terminated j = true ∨ id = j := by
  unfold stopped terminated
  rw [engine?_update]
  by_cases hj : id = j
  · subst hj
    rw [if_pos rfl, List.getElem?_eq_getElem hid]
    simp [engine_withEngine, Engine.terminate]
  · simp [hj]

/-! ## Requests -/

/-- The engine that an event asks to stop, if it asks any, and whether a guard in front makes the
request do nothing. -/
def Event.request? (c : Controller) : Event → Option (Nat × Bool)
  | .terminate id => some (id, false)
  | .onAlarm ignore id => some (id, ignore)
  | .alarm => c.alarm.map fun id => (id, c.ignoreAlarm)
  | .signal s => (c.handlerOf? s).map fun id => (id, false)
  | _ => none

/-- The event asks an engine to stop, and no guard keeps the request back. -/
def Event.Asks (h : Host) (id : Nat) (e : Event) : Prop :=
  id < h.seats.length ∧ e.request? h.controller = some (id, false)

instance : Decidable (e.Asks h id) := inferInstanceAs (Decidable (_ ∧ _))

/-- The four ways to ask. -/
theorem Event.request?_cases {c : Controller} {ignored : Bool}
    (hrequest : e.request? c = some (id, ignored)) :
    (e = .terminate id ∧ ignored = false) ∨ e = .onAlarm ignored id ∨
      (e = .alarm ∧ c.alarm = some id ∧ c.ignoreAlarm = ignored) ∨
      ∃ s, e = .signal s ∧ c.handlerOf? s = some id ∧ ignored = false := by
  cases e with
  | terminate i => simpa [request?, eq_comm] using hrequest
  | onAlarm guard i => simpa [request?, and_comm] using hrequest
  | alarm =>
    obtain ⟨i, halarm, hi⟩ := Option.map_eq_some_iff.1 hrequest
    obtain ⟨rfl, rfl⟩ := Prod.mk.inj hi
    simp [halarm]
  | signal s =>
    obtain ⟨i, hhandler, hi⟩ := Option.map_eq_some_iff.1 hrequest
    obtain ⟨rfl, rfl⟩ := Prod.mk.inj hi
    simp [hhandler]
  | _ => cases hrequest

/-- A request other than a signal acts as the alarm's action does. -/
theorem step_eq_request {ignored : Bool} (hrequest : e.request? h.controller = some (id, ignored))
    (hsignal : ∀ s, e ≠ .signal s) : h.step read e = h.request id (Engine.onAlarm ignored) := by
  rcases Event.request?_cases hrequest with ⟨rfl, rfl⟩ | rfl | ⟨rfl, halarm, rfl⟩ | ⟨s, rfl, -⟩
  · rfl
  · rfl
  · simp only [step, halarm]
  · exact absurd rfl (hsignal s)

theorem request_of_le {f : Engine → Bool × Engine} (hid : h.seats.length ≤ id) :
    h.request id f = (.absent, h) := by
  rw [request, withEngine_of_le hid]

/-- What a request that reaches its engine answers and does, with a guard in front. -/
theorem request_onAlarm (hid : id < h.seats.length) (ignored : Bool) :
    h.request id (Engine.onAlarm ignored) =
      (.flag (!ignored && !h.terminated id), if ignored then h else h.stopped id) := by
  obtain ⟨engine, hengine⟩ := exists_engine? hid
  have hflag : h.terminated id = engine.terminated := by rw [terminated, hengine]; rfl
  rw [request, withEngine_eq hengine, hflag]
  cases ignored with
  | true =>
    have hsame : (h.update id fun seat => seat.withEngine engine) = h := by
      refine update_eq_self fun seat hseat => ?_
      rw [← engine_of_engine? hengine hseat, withEngine_engine]
    simp [Engine.onAlarm, hsame]
  | false =>
    have hstopped : (h.update id fun seat => seat.withEngine engine.terminate.2) = h.stopped id :=
      update_congr fun seat hseat => by rw [engine_of_engine? hengine hseat]
    exact congrArg (Prod.mk _) hstopped

/-- **What a request answers and does.** -/
theorem step_of_request (read : Reader) {ignored : Bool} (hid : id < h.seats.length)
    (hrequest : e.request? h.controller = some (id, ignored)) (hsignal : ∀ s, e ≠ .signal s) :
    h.step read e =
      (.flag (!ignored && !h.terminated id), if ignored then h else h.stopped id) := by
  rw [step_eq_request hrequest hsignal, request_onAlarm hid]

/-- A fatal signal that is handled sets the flag. -/
theorem next_of_signal {s : Signal} (hhandler : h.controller.handlerOf? s = some id) :
    (h.step read (.signal s)).2 = if h.seats.length ≤ id then h else h.stopped id := by
  simp only [step, hhandler]
  by_cases hid : id < h.seats.length
  · obtain ⟨engine, hengine⟩ := exists_engine? hid
    rw [withEngine_eq hengine, if_neg (Nat.not_le.2 hid)]
    exact update_congr fun seat hseat => by rw [engine_of_engine? hengine hseat]; rfl
  · rw [withEngine_of_le (Nat.not_lt.1 hid), if_pos (Nat.not_lt.1 hid)]

/-- **What a request leaves behind**, whatever way it takes. -/
theorem next_of_request {ignored : Bool} (hrequest : e.request? h.controller = some (id, ignored)) :
    (h.step read e).2 = if ignored = true ∨ h.seats.length ≤ id then h else h.stopped id := by
  by_cases hsignal : ∃ s, e = .signal s
  · obtain ⟨s, rfl⟩ := hsignal
    obtain ⟨i, hhandler, hi⟩ := Option.map_eq_some_iff.1 hrequest
    obtain ⟨rfl, rfl⟩ := Prod.mk.inj hi
    simp [next_of_signal hhandler]
  · rw [step_eq_request hrequest fun s hs => hsignal ⟨s, hs⟩]
    by_cases hid : id < h.seats.length
    · simp [request_onAlarm hid, Nat.not_le.2 hid]
    · simp [request_of_le, Nat.not_lt.1 hid]

/-- An alarm or a signal for which there is no handler does nothing. -/
theorem next_of_unheard (hrequest : e.request? h.controller = none)
    (he : e = .alarm ∨ ∃ s, e = .signal s) : (h.step read e).2 = h := by
  rcases he with rfl | ⟨s, rfl⟩
  · have halarm : h.controller.alarm = none := by simpa [Event.request?] using hrequest
    simp only [step, halarm]
  · have hhandler : h.controller.handlerOf? s = none := by simpa [Event.request?] using hrequest
    simp only [step, hhandler]

/-! ## What an event leaves behind -/

theorem next_arm (hid : id < h.seats.length) (timeout : Option Nat) :
    (h.step read (.arm id timeout)).2 =
      { h with controller := ((Controller.arm id timeout).carry h.controller).state } := by
  obtain ⟨engine, hengine⟩ := exists_engine? hid
  simp only [step, hengine]
  split <;> rfl

theorem step_arm_of_le (hid : h.seats.length ≤ id) (timeout : Option Nat) :
    h.step read (.arm id timeout) = (.absent, h) := by
  simp only [step, engine?_eq_none_iff.2 hid]

/-- **All that an event can do.** It leaves the process as it is, adds a solver, carries out a task,
sets the flag that it asked for, arms, disarms or tears down the controller, or retires a solver. -/
theorem next_cases {P : Host → Prop} (same : (∀ id, ¬ e.Asks h id) → P h)
    (create : ∀ options, e = .create options →
      P { h with seats := h.seats ++ [.active (.ofOptions options)] })
    (perform : ∀ id task s, e = .perform id task → h.solver? id = some s →
      P (h.update id fun _ => .active ((Solver.perform read task).carry s).state))
    (request : ∀ id, e.Asks h id → P (h.stopped id))
    (arm : ∀ id timeout, e = .arm id timeout → id < h.seats.length →
      P { h with controller := ((Controller.arm id timeout).carry h.controller).state })
    (disarm : e = .disarm → P { h with controller := h.controller.disarm })
    (teardown : ∀ id, e = .teardown id →
      P { h.update id Seat.retire with controller := h.controller.teardown })
    (release : ∀ id, e = .release id → P (h.update id Seat.retire)) : P (h.step read e).2 := by
  cases hrequest : e.request? h.controller with
  | some r =>
    obtain ⟨id, ignored⟩ := r
    rw [next_of_request hrequest]
    split
    · next hunheard =>
      refine same fun j ⟨hj, hasks⟩ => ?_
      rw [hrequest, Option.some.injEq, Prod.mk.injEq] at hasks
      obtain ⟨rfl, rfl⟩ := hasks
      simp [Nat.not_le.2 hj] at hunheard
    · next hheard =>
      rw [not_or, Bool.not_eq_true, Nat.not_le] at hheard
      exact request id ⟨hheard.2, hheard.1 ▸ hrequest⟩
  | none =>
    have hsame : P h := same fun j hasks => by simp [Event.Asks, hrequest] at hasks
    clear same
    cases e with
    | create options => exact create options rfl
    | perform id task =>
      simp only [step]
      cases hsolver : h.solver? id with
      | none => exact hsame
      | some s => exact perform id task s rfl hsolver
    | arm id timeout =>
      by_cases hid : id < h.seats.length
      · rw [next_arm hid]
        exact arm id timeout rfl hid
      · rw [step_arm_of_le (Nat.not_lt.1 hid)]
        exact hsame
    | disarm => exact disarm rfl
    | teardown id => exact teardown id rfl
    | release id => exact release id rfl
    | alarm =>
      rw [next_of_unheard hrequest (Or.inl rfl)]
      exact hsame
    | signal s =>
      rw [next_of_unheard hrequest (Or.inr ⟨s, rfl⟩)]
      exact hsame
    | terminate id => cases hrequest
    | onAlarm ignore id => cases hrequest

theorem terminated_create (options : Options) :
    ({ h with seats := h.seats ++ [.active (.ofOptions options)] } : Host).terminated j =
      h.terminated j := by
  unfold terminated engine?
  -- A new engine has not been asked yet, and neither has one that is not there.
  rcases Nat.lt_trichotomy j h.seats.length with hj | rfl | hj
  · rw [List.getElem?_append_left hj]
  · simp [Seat.engine, Solver.ofOptions]
  · rw [List.getElem?_eq_none (by simp; omega), List.getElem?_eq_none (by omega)]

theorem terminated_perform {s : Solver} (hsolver : h.solver? id = some s) (task : Solver.Task) :
    (h.update id fun _ => .active ((Solver.perform read task).carry s).state).terminated j =
      h.terminated j := by
  refine terminated_update fun seat hseat => ?_
  rw [solver?, hseat] at hsolver
  cases seat with
  | retired e => cases hsolver
  | active t =>
    obtain rfl : t = s := Option.some.inj hsolver
    exact Solver.keeps_terminated_perform _ read task t rfl

theorem terminated_retire : (h.update id Seat.retire).terminated j = h.terminated j := by
  apply terminated_update
  intro seat hseat
  rfl

/-- **A flag is set after an event just in case it was set before or the event asked for it.** -/
theorem terminated_step_iff (read : Reader) :
    (h.step read e).2.terminated j = true ↔ h.terminated j = true ∨ e.Asks h j := by
  apply next_cases (P := fun k => k.terminated j = true ↔ h.terminated j = true ∨ e.Asks h j)
  case same =>
    intro hno
    simp [hno j]
  case create =>
    intro options hevent
    subst hevent
    rw [terminated_create]
    simp [Event.Asks, Event.request?]
  case perform =>
    intro id task s hevent hsolver
    subst hevent
    rw [terminated_perform hsolver]
    simp [Event.Asks, Event.request?]
  case request =>
    intro id hasks
    rw [terminated_stopped hasks.1]
    refine or_congr Iff.rfl ⟨fun hj => hj ▸ hasks, fun hasks' => ?_⟩
    simpa using hasks.2.symm.trans hasks'.2
  case arm =>
    intro id timeout hevent hid
    subst hevent
    simp [Event.Asks, Event.request?, terminated, engine?]
  case disarm =>
    intro hevent
    subst hevent
    simp [Event.Asks, Event.request?, terminated, engine?]
  case teardown =>
    intro id hevent
    subst hevent
    have hretire : (h.update id Seat.retire).terminated j = h.terminated j := terminated_retire
    rw [← hretire]
    simp [Event.Asks, Event.request?, terminated, engine?]
  case release =>
    intro id hevent
    subst hevent
    rw [terminated_retire]
    simp [Event.Asks, Event.request?]

theorem length_le_step : h.seats.length ≤ (h.step read e).2.seats.length := by
  apply next_cases (P := fun k => h.seats.length ≤ k.seats.length) <;> intros <;> simp [stopped]

/-! ## Requests in a history -/

/-- The engine is asked to stop in the course of a history. -/
def Asked (id : Nat) (history : List Moment) (h : Host) : Prop :=
  ∃ before m after, history = before ++ m :: after ∧ m.event.Asks (proceed before h) id

theorem asked_nil : ¬ Asked id [] h := by
  rintro ⟨before, m, after, hnil, -⟩
  simp at hnil

theorem asked_cons {m : Moment} {later : List Moment} :
    Asked id (m :: later) h ↔ m.event.Asks h id ∨ Asked id later (m.next h) := by
  constructor
  · rintro ⟨before, n, after, hsplit, hasks⟩
    cases before with
    | nil =>
      obtain ⟨rfl, -⟩ := List.cons.inj hsplit
      exact Or.inl hasks
    | cons k before =>
      obtain ⟨rfl, rfl⟩ := List.cons.inj hsplit
      exact Or.inr ⟨before, n, after, rfl, hasks⟩
  · rintro (hasks | ⟨before, n, after, rfl, hasks⟩)
    · exact ⟨[], m, later, rfl, hasks⟩
    · exact ⟨m :: before, n, after, rfl, hasks⟩

/-- **A flag is set after a history just in case it was set before or somebody asked for it.** -/
theorem terminated_proceed_iff (history : List Moment) :
    (proceed history h).terminated id = true ↔ h.terminated id = true ∨ Asked id history h := by
  induction history generalizing h with
  | nil => simp [proceed, asked_nil]
  | cons m later ih =>
    rw [asked_cons, ← or_assoc, ← terminated_step_iff m.files]
    exact ih

/-- **Termination is requested once.** A flag that is not set at first is set after a history just in
case somebody asked for it without a guard in the way. The answer to a request says that it set the
flag just in case it is the first of these. A request that is kept back by a guard says that it did
not, and changes nothing. And a flag that is set stays set. -/
theorem stop_requested_once (hflag : h.terminated id = false) (history : List Moment) :
    ((proceed history h).terminated id = true ↔ Asked id history h) ∧
    (∀ (m : Moment) (ignored : Bool), id < (proceed history h).seats.length →
      m.event.request? (proceed history h).controller = some (id, ignored) →
      (∀ s, m.event ≠ .signal s) →
        ∃ first, m.reply (proceed history h) = .flag first ∧
          (first = true ↔ ignored = false ∧ ¬ Asked id history h) ∧
          (ignored = true → m.next (proceed history h) = proceed history h)) ∧
    ∀ later, (proceed history h).terminated id = true →
      (proceed (history ++ later) h).terminated id = true := by
  have hasked : (proceed history h).terminated id = true ↔ Asked id history h := by
    rw [terminated_proceed_iff, hflag]
    simp
  refine ⟨hasked, fun m ignored hid hrequest hsignal => ?_, fun later hset => ?_⟩
  · have hstep := step_of_request m.files hid hrequest hsignal
    refine ⟨_, congrArg Prod.fst hstep, ?_, fun hignored => ?_⟩
    · rw [← hasked]
      simp
    · rw [Moment.next, hstep, hignored]
      rfl
  · rw [proceed_append, terminated_proceed_iff]
    exact Or.inl hset

/-- Files that cannot be opened. -/
def noFiles : Reader := fun _ => .error (.opening .notFound)

/-- A solver for which a controller is armed, after a request that came too late for a guard. -/
def lateRequest : List Moment :=
  [.create {}, .onAlarm true 0, .arm 0 none].map (Moment.mk noFiles)

theorem stop_requested_once_lateRequest :
    ({} : Host).terminated 0 = false ∧ ¬ Asked 0 lateRequest {} ∧
      Moment.reply ⟨noFiles, .alarm⟩ (proceed lateRequest {}) = .flag true ∧
      Moment.reply ⟨noFiles, .terminate 0⟩ (proceed (lateRequest ++ [⟨noFiles, .alarm⟩]) {}) =
        .flag false := by
  have hflag : ({} : Host).terminated 0 = false := rfl
  obtain ⟨hasked, hreply, -⟩ := stop_requested_once hflag lateRequest
  obtain ⟨hasked', hreply', -⟩ := stop_requested_once hflag (lateRequest ++ [⟨noFiles, .alarm⟩])
  have hnone : ¬ Asked 0 lateRequest {} :=
    mt hasked.2 (by decide +kernel)
  have hone : Asked 0 (lateRequest ++ [⟨noFiles, .alarm⟩]) {} := hasked'.1 (by decide +kernel)
  obtain ⟨first, hfirst, hiff, -⟩ := hreply ⟨noFiles, .alarm⟩ false (by decide +kernel)
    (by decide +kernel) nofun
  obtain ⟨second, hsecond, hiff', -⟩ := hreply' ⟨noFiles, .terminate 0⟩ false (by decide +kernel)
    rfl nofun
  obtain rfl : first = true := hiff.2 ⟨rfl, hnone⟩
  obtain rfl : second = false := Bool.eq_false_iff.2 fun hset => (hiff'.1 hset).2 hone
  exact ⟨hflag, hnone, hfirst, hsecond⟩

end Host

end Polarity
