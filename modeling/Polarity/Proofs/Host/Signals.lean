import Polarity.Proofs.Host.Isolation
import Polarity.Proofs.Statistics.Printing

/-!
# What a fatal signal prints

**Moments** (`Occurs`). A signal comes between two events of a history, or while a task is carried
out. Then the solver that is busy can be in any state, but the controller, the engines of the other
solvers and the serial numbers are as they were before the task.

**The handler** prints its report (`Signal.report`) in three parts, each through an empty buffer. All
of them have room (`Signal.handle_eq`).

**Theorem (`signal_reports_counters`).** A controller that is armed or triggered has its handlers for
the one engine that it is armed for, whatever solvers were created since and even if that solver was
released. On a fatal signal the counters of this engine are printed as they are at that moment, by
the printer that writes the same as the other one, and the process ends by this signal.
-/

namespace Polarity

namespace Signal

/-- What is printed on a signal, with nothing cut off. -/
def report (s : Signal) (counters : Statistics) : String :=
  "c caught signal " ++ toString s.number ++ "\n" ++ counters.text ++
    ("c raising signal " ++ toString s.number ++ "\n")

theorem line_eq (s : Signal) (label : String) (hlabel : label.utf8ByteSize + 3 ≤ Buffer.capacity) :
    line label s = label ++ toString s.number ++ "\n" := by
  have hnumber : (toString s.number).utf8ByteSize ≤ 2 := by cases s <;> decide
  have hnewline : "\n".utf8ByteSize = 1 := rfl
  have hjoin : String.join [label, toString s.number, "\n"] = label ++ toString s.number ++ "\n" := by
    simp [String.join, String.append_assoc]
  rw [line, Buffer.print_eq, hjoin]
  rw [hjoin, String.utf8ByteSize_append, String.utf8ByteSize_append]
  omega

/-- **All that the handler prints has room.** -/
theorem handle_eq (s : Signal) (e : Engine) :
    s.handle e = (⟨s.report e.statistics, s⟩, e.terminate.2) := by
  have hcaught := s.line_eq "c caught signal " (by decide)
  have hraising := s.line_eq "c raising signal " (by decide)
  have hreport : line "c caught signal " s ++ e.statistics.signalText ++ line "c raising signal " s =
      s.report e.statistics :=
    congrArg₂ _ (congrArg₂ _ hcaught e.statistics.signalText_eq_text) hraising
  rw [← hreport]
  rfl

end Signal

namespace Host

variable {h : Host} {history : List Moment}

/-- The process is at a moment right after a history: between two events, or while a solver is at
work on its next task, in whatever state that solver is. -/
inductive Occurs (history : List Moment) : Host → Prop
  | between : Occurs history (proceed history {})
  | amid {id : Nat} {s : Solver} (busy : (proceed history {}).solver? id = some s) (t : Solver) :
      Occurs history ((proceed history {}).update id fun _ => .active t)

theorem Occurs.controller_eq (hh : Occurs history h) :
    h.controller = (proceed history {}).controller := by
  cases hh <;> rfl

theorem Occurs.length_eq (hh : Occurs history h) :
    h.seats.length = (proceed history {}).seats.length := by
  cases hh with
  | between => rfl
  | amid => exact length_update _

/-- **A controller that is armed or triggered has its handlers for the engine it is armed for.** -/
theorem Occurs.exists_installed (hh : Occurs history h)
    (hstate : h.state = .armed ∨ h.state = .triggered) :
    ∃ id scheduled, h.controller = .installed id scheduled ∧
      ∀ j, ArmedFor j history {} ↔ j = id := by
  have hc : h.controller.InOrder := hh.controller_eq ▸ inOrder_proceed (.idle false) history
  cases halarm : h.controller.alarm with
  | none =>
    have hidle : h.state = .idle ∨ h.state = .finalizing := hc.state_of_alarm_eq_none halarm
    rcases hstate with hstate | hstate <;> simp [hstate] at hidle
  | some id =>
    obtain ⟨scheduled, hinstalled⟩ := hc.eq_installed halarm
    refine ⟨id, scheduled, hinstalled, fun j => ?_⟩
    rw [← alarm_proceed_iff (.idle false) rfl history, ← hh.controller_eq, halarm, Option.some.injEq,
      eq_comm]

theorem handlerOf?_installed (id : Nat) (scheduled : Bool) (s : Signal) :
    (Controller.installed id scheduled).handlerOf? s = some id := by
  cases s <;> rfl

/-- **A fatal signal prints the counters of the armed solver** as they are at that moment, in full and
between two lines that name the signal, and ends the process. -/
theorem signal_reports_counters :
    (∀ c : Statistics, c.signalText = c.text ∧ c.text.utf8ByteSize ≤ Buffer.capacity) ∧
      ∀ history h, Occurs history h → h.state = .armed ∨ h.state = .triggered →
        ∃ id e, (∀ j, ArmedFor j history {} ↔ j = id) ∧ h.engine? id = some e ∧
          ∀ read s, h.step read (.signal s) =
            (.killed ⟨s.report e.statistics, s⟩, h.stopped id) := by
  refine ⟨fun c => ⟨c.signalText_eq_text, c.utf8ByteSize_text_le⟩, fun history h hh hstate => ?_⟩
  obtain ⟨id, scheduled, hinstalled, harmed⟩ := hh.exists_installed hstate
  have hid : id < h.seats.length :=
    hh.length_eq ▸ lt_length_of_armedFor (.idle false) ((harmed id).2 rfl)
  obtain ⟨e, hengine⟩ := exists_engine? hid
  refine ⟨id, e, harmed, hengine, fun read s => Prod.ext ?_ ?_⟩
  · have hhandler := handlerOf?_installed id scheduled s
    simp only [step, hinstalled, hhandler, withEngine_eq hengine, Signal.handle_eq]
  · rw [next_of_signal (hinstalled ▸ handlerOf?_installed id scheduled s), if_neg (Nat.not_le.2 hid)]

/-- A controller is armed for a solver that has searched, and another solver is created. -/
def overtaken : List Moment :=
  [.create {}, .perform 0 (.resize 2), .perform 0 (.search .refusal), .arm 0 none, .create {}].map
    (Moment.mk noFiles)

/-- The solver in the course of a second search. -/
def searching : Host :=
  (proceed overtaken {}).update 0 fun _ => .active
    { Solver.ofOptions {} with engine.statistics := ⟨5, 2, 0xFFFFFFFFFFFFFFFF⟩ }

theorem signal_reports_counters_overtaken :
    (proceed overtaken {}).step noFiles (.signal .interrupt) =
        (.killed ⟨Signal.interrupt.report ⟨2, 1, 1⟩, .interrupt⟩, (proceed overtaken {}).stopped 0) ∧
      searching.step noFiles (.signal .abort) =
        (.killed ⟨Signal.abort.report ⟨5, 2, 0xFFFFFFFFFFFFFFFF⟩, .abort⟩, searching.stopped 0) := by
  have harms : Moment.Arms 0 ⟨noFiles, .arm 0 none⟩ (proceed (overtaken.take 3) {}) :=
    (arms_iff (inOrder_proceed (.idle false) _)).2
      ⟨⟨none, rfl⟩, by decide +kernel, by decide +kernel⟩
  have harmed : ArmedFor 0 overtaken {} :=
    ⟨overtaken.take 3, _, [⟨noFiles, .create {}⟩], rfl, harms, by decide⟩
  constructor
  · obtain ⟨id, e, hid, hengine, hstep⟩ :=
      signal_reports_counters.2 overtaken _ .between (Or.inl (by decide +kernel))
    obtain rfl : 0 = id := (hid 0).1 harmed
    have hcounters : (proceed overtaken {}).engine? 0 = some ⟨false, ⟨2, 1, 1⟩⟩ := by decide +kernel
    obtain rfl := Option.some.inj (hengine.symm.trans hcounters)
    exact hstep noFiles .interrupt
  · obtain ⟨s, hsolver⟩ : ∃ s, (proceed overtaken {}).solver? 0 = some s :=
      Option.isSome_iff_exists.1 (by decide +kernel)
    obtain ⟨id, e, hid, hengine, hstep⟩ :=
      signal_reports_counters.2 overtaken searching (.amid hsolver _) (Or.inl (by decide +kernel))
    obtain rfl : 0 = id := (hid 0).1 harmed
    have hcounters : searching.engine? 0 = some ⟨false, ⟨5, 2, 0xFFFFFFFFFFFFFFFF⟩⟩ := by
      decide +kernel
    obtain rfl := Option.some.inj (hengine.symm.trans hcounters)
    exact hstep noFiles .abort

end Host

end Polarity
