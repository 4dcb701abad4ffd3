import Polarity.CommandLine.Solve
import Polarity.Proofs.Formula.Grammar
import Polarity.Proofs.Formula.Printing
import Polarity.Proofs.Hint.Loading
import Polarity.Proofs.Search.Stability
import Polarity.Proofs.Search.Succession
import Polarity.Proofs.Solver.Preparation
import Polarity.Proofs.Statistics.Printing

/-!
# The course of a run

A run starts in one of three ways (`Invocation.start_cases`). If the formula cannot be read, nothing is
printed (`Invocation.run_of_formula_error`). If the hint cannot be loaded, what the formula file holds
is printed and no more (`Invocation.run_of_hint_error`). If both are there (`Invocation.Loads`), the
search starts from an idle solver in which nothing is assigned, so that it answers and the answer is
right (`Invocation.search_ready`). Then what was read is printed, how the search went, and the answer
(`Invocation.Loads.run_eq`).

**In a directory.** A run that fails leaves the directory as it is, and the report of its failure is
the last thing printed (`inDirectory_of_error`). After an answer, what is left to settle is how writing
the report goes (`inDirectory_of_ok`). The exit code is the one for this answer, just in case the
report that was asked for can be written (`inDirectory_of_reports`, `code_of_not_reports`).
-/

namespace Polarity.Solve

variable {i : Invocation} {read : Reader} {f : Formula}

/-! ## Parts of a run -/

namespace Program

variable {α : Type} (c : Console)

@[simp] theorem print_run (text : String) :
    print text c = .ok () { c with output := c.output ++ text } := rfl

@[simp] theorem message_run (text : String) :
    message text c = .ok () { c with output := c.output ++ c.solver.options.message text } := rfl

@[simp] theorem onSolver_run (change : Change Solver α) :
    onSolver change c = match change c.solver with
      | .ok a s => .ok a { c with solver := s }
      | .error e s => .error (.solver e) { c with solver := s } := rfl

@[simp] theorem formula_ok_run (f : Formula) : formula (.ok f) c = .ok f c := rfl

@[simp] theorem formula_error_run (cause : Formula.LoadError) :
    formula (.error cause) c = .error (.formula cause) c := rfl

end Program

/-- The part of a run in which the search takes place and its result is printed. -/
def conclude (f : Formula) (initPhase : Option Hint.Summary) : Program Solved := do
  let outcome ← Program.onSolver (Solver.search f)
  let solver := (← get).solver
  let statistics := solver.engine.statistics
  if !solver.options.quiet then
    Program.print statistics.text
  Program.print s!"s {outcome.status}\n"
  if let some model := outcome.model? then
    let numbers ← Program.onSolver (Change.read fun _ => model.mapM Literal.toDimacs)
    Program.print (modelText numbers)
  return { outcome, vars := solver.vars, initPhase, statistics }

theorem program_eq (read : Reader) (input : Path) :
    program read input = (do
      let formula ← Program.formula (Formula.load read input)
      Program.message s!"parsed {formula.vars} variables and {formula.clauses.length} clauses"
      Program.onSolver (Solver.resize formula.vars)
      let initPhase ← Program.onSolver (Solver.loadInitialPhases read)
      if let some summary := initPhase then
        Program.message summary.text
      conclude formula initPhase) := rfl

/-! ## What is printed -/

/-- The text is empty or ends with a newline, so that what is printed next starts a line. -/
def EndsLine (text : String) : Prop := text = "" ∨ ∃ start, text = start ++ "\n"

theorem EndsLine.append {first second : String} (hfirst : EndsLine first)
    (hsecond : EndsLine second) : EndsLine (first ++ second) := by
  rcases hsecond with rfl | ⟨start, rfl⟩
  · rwa [String.append_empty]
  · exact .inr ⟨first ++ start, by rw [String.append_assoc]⟩

theorem endsLine_message (options : Options) (text : String) :
    EndsLine (options.message text) := by
  unfold Options.message
  split
  · exact .inl rfl
  · exact .inr ⟨"c " ++ text, rfl⟩

theorem endsLine_statistics (s : Statistics) : EndsLine s.text := by
  have hline (label : String) (count : UInt64) :
      EndsLine (String.join (Statistics.line label count)) :=
    .inr ⟨_, Statistics.join_line label count⟩
  unfold Statistics.text Statistics.pieces
  rw [String.join_append, String.join_append]
  exact ((hline _ _).append (hline _ _)).append (hline _ _)

/-- The line that reports what a formula file holds. -/
def parsedText (i : Invocation) (f : Formula) : String :=
  i.settings.options.message s!"parsed {f.vars} variables and {f.clauses.length} clauses"

/-- The line that reports what a hint holds, if there is one. -/
def hintText (i : Invocation) : Option Hint.Summary → String
  | none => ""
  | some summary => i.settings.options.message summary.text

/-- What is printed about the course of a search. -/
def statisticsText (i : Invocation) (s : Statistics) : String :=
  if i.settings.options.quiet then "" else s.text

/-- What is printed about the result of a search. -/
def resultText (o : Outcome) : String :=
  s!"s {o.status}\n" ++ (o.model?.map fun m => modelText (m.map Literal.number)).getD ""

/-! ## Getting ready -/

/-- **A run whose formula cannot be read** prints nothing. -/
theorem Invocation.run_of_formula_error {cause : Formula.LoadError}
    (hload : Formula.load read i.settings.input = .error cause) :
    i.run read = ⟨"", .error (.formula cause)⟩ := by
  simp [run, program, hload]

/-- The solver that was given the size of a formula, before its hint is loaded. -/
def Invocation.sized (i : Invocation) (n : Nat) : Solver :=
  { Solver.blank i.settings.options n with initPhaseFile := i.initPhaseFile }

theorem Invocation.resize_eq {n : Nat} (hn : n ≤ Variable.limit) :
    Solver.resize n { Solver.ofOptions i.settings.options with initPhaseFile := i.initPhaseFile } =
      .ok () (i.sized n) :=
  Solver.resize_of_empty rfl hn

/-- Where a hint file is named, it is loaded for the size of the solver and given to it. -/
theorem Invocation.loadInitialPhases_eq {path : Path} (hfile : i.initPhaseFile = some path)
    (read : Reader) (n : Nat) :
    Solver.loadInitialPhases read (i.sized n) =
      match Hint.load read path n with
      | .error e => .error (.error e) (Solver.blank i.settings.options n)
      | .ok h =>
        match Solver.initPhases h (Solver.blank i.settings.options n) with
        | .ok () s => .ok (some h.summary) s
        | .error e s => .error e s := by
  have hvars : (Solver.blank i.settings.options n).vars = n := Assignment.vars_blank n
  have hfresh : ({ Solver.blank i.settings.options n with initPhaseFile := none } : Solver) =
      Solver.blank i.settings.options n := rfl
  cases hhint : Hint.load read path n with
  | error e => simp [Solver.loadInitialPhases, sized, hfile, hfresh, hvars, hhint, Except.mapError]
  | ok h =>
    cases hinit : Solver.initPhases h (Solver.blank i.settings.options n) <;>
      simp [Solver.loadInitialPhases, sized, hfile, hfresh, hvars, hhint, Except.mapError, hinit]

/-- **A run whose hint cannot be loaded** prints only what the formula file holds. -/
theorem Invocation.run_of_hint_error (hload : Formula.load read i.settings.input = .ok f)
    {path : Path} {e : Error} (hfile : i.initPhaseFile = some path)
    (hhint : Hint.load read path f.vars = .error e) :
    i.run read = ⟨parsedText i f, .error (.solver (.error e))⟩ := by
  have hresize := i.resize_eq (Formula.wellFormed_of_load hload).vars_le
  have hinit := Invocation.loadInitialPhases_eq hfile read f.vars
  simp [run, program, hload, hresize, hinit, hhint]
  rfl

/-- The formula can be read, and the hint can be loaded if one is named. -/
structure Invocation.Loads (i : Invocation) (read : Reader) (f : Formula) : Prop where
  formula : Formula.load read i.settings.input = .ok f
  hint : ∀ path, i.initPhaseFile = some path → ∃ h, Hint.load read path f.vars = .ok h

/-- **The ways in which a run starts**: the formula or the hint cannot be loaded, or both can. -/
theorem Invocation.start_cases (i : Invocation) (read : Reader) :
    (∃ cause, Formula.load read i.settings.input = .error cause) ∨
      (∃ f path e, Formula.load read i.settings.input = .ok f ∧ i.initPhaseFile = some path ∧
        Hint.load read path f.vars = .error e) ∨
      ∃ f, i.Loads read f := by
  cases hload : Formula.load read i.settings.input with
  | error cause => exact .inl ⟨cause, rfl⟩
  | ok f =>
    cases hfile : i.initPhaseFile with
    | none => exact .inr (.inr ⟨f, hload, by simp [hfile]⟩)
    | some path =>
      cases hhint : Hint.load read path f.vars with
      | error e => exact .inr (.inl ⟨f, path, e, rfl, rfl, hhint⟩)
      | ok h => exact .inr (.inr ⟨f, hload, by simp [hfile, hhint]⟩)

/-- The hint that is loaded, if one is named. -/
def Invocation.hint? (i : Invocation) (read : Reader) (n : Nat) : Option Hint :=
  i.initPhaseFile.bind fun path => (Hint.load read path n).toOption

/-- The solver that was given the size of a formula and its hint. -/
def Invocation.ready (i : Invocation) (read : Reader) (n : Nat) : Solver :=
  match i.hint? read n with
  | none => Solver.blank i.settings.options n
  | some h => Solver.hinted i.settings.options h

theorem Invocation.options_ready (i : Invocation) (read : Reader) (n : Nat) :
    (i.ready read n).options = i.settings.options := by
  unfold ready
  split <;> rfl

/-- **Loading the hint gets the solver ready.** -/
theorem Invocation.Loads.loadInitialPhases_eq (h : i.Loads read f) :
    Solver.loadInitialPhases read (i.sized f.vars) =
      .ok ((i.hint? read f.vars).map Hint.summary) (i.ready read f.vars) := by
  cases hfile : i.initPhaseFile with
  | none =>
    have hblank : i.sized f.vars = Solver.blank i.settings.options f.vars := by
      rw [sized, hfile]
      rfl
    rw [hblank, ready, hint?, hfile]
    simp [Solver.loadInitialPhases, Solver.blank]
  | some path =>
    obtain ⟨hint, hhint⟩ := h.hint path hfile
    have hsize : hint.size = f.vars := Hint.size_of_load hhint
    have hloaded : i.hint? read f.vars = some hint := by
      rw [hint?, hfile, Option.bind_some, hhint, Except.toOption]
    rw [Invocation.loadInitialPhases_eq hfile, hhint, ready, hloaded, ← hsize]
    simp only [Solver.initPhases_blank, Option.map_some]

/-- **The search starts from an idle solver in which nothing is assigned.** -/
theorem Invocation.idle_ready (i : Invocation) (read : Reader) (f : Formula) :
    (i.ready read f.vars).Idle f.vars ∧
      (i.ready read f.vars).store.assignment = .blank f.vars := by
  unfold ready
  cases hhint : i.hint? read f.vars with
  | none => exact ⟨Solver.idle_blank i.settings.options f.vars, rfl⟩
  | some hint =>
    obtain ⟨path, -, hload⟩ := Option.bind_eq_some_iff.1 hhint
    have hsize : hint.size = f.vars := Hint.size_of_load (toOption_eq_some_iff.1 hload)
    exact ⟨Solver.idle_hinted i.settings.options hsize, hsize ▸ rfl⟩

/-! ## The search and its result -/

theorem toDimacs_eq_of_rightFor {m : List Literal} (hf : f.WellFormed)
    (hm : (Outcome.sat m).RightFor f) : m.mapM Literal.toDimacs = .ok (m.map Literal.number) := by
  refine mapM_eq_ok fun l hl => Literal.toDimacs_eq ?_
  have hvar : l.var ∈ (List.range f.vars).map Variable.mk := hm.1 ▸ List.mem_map_of_mem hl
  obtain ⟨k, hk, hkl⟩ := List.mem_map.1 hvar
  rw [← hkl]
  exact (List.mem_range.1 hk).trans_le hf.vars_le

theorem conclude_run {s t : Solver} {o : Outcome} (hsearch : Solver.search f s = .ok o t)
    (hf : f.WellFormed) (hright : o.RightFor f) (initPhase : Option Hint.Summary)
    (output : String) :
    conclude f initPhase ⟨s, output⟩ = .ok ⟨o, t.vars, initPhase, t.engine.statistics⟩
      ⟨t, output ++ (if t.options.quiet then "" else t.engine.statistics.text) ++
        resultText o⟩ := by
  cases o with
  | sat m =>
    have hnumbers := toDimacs_eq_of_rightFor hf hright
    cases hquiet : t.options.quiet <;>
      simp [conclude, hsearch, hquiet, Outcome.model?, hnumbers, resultText, String.append_assoc]
  | _ =>
    cases hquiet : t.options.quiet <;>
      simp [conclude, hsearch, hquiet, Outcome.model?, resultText, String.append_assoc]

theorem Invocation.search_ready (i : Invocation) (read : Reader) (hf : f.WellFormed) :
    ∃ o t, Solver.search f (i.ready read f.vars) = .ok o t ∧ o.RightFor f := by
  obtain ⟨hidle, hblank⟩ := i.idle_ready read f
  obtain ⟨o, t, hsearch, hleaves⟩ := Solver.search_leaves hf hidle
  exact ⟨o, t, hsearch, hleaves.answer.rightFor hidle.consistent (by rw [hblank]; rfl)⟩

/-- **A run that has all it needs** prints what it has read, how the search went and the result. -/
theorem Invocation.Loads.run_eq (h : i.Loads read f) {o : Outcome} {t : Solver}
    (hsearch : Solver.search f (i.ready read f.vars) = .ok o t) (hright : o.RightFor f) :
    i.run read =
      ⟨parsedText i f ++ hintText i ((i.hint? read f.vars).map Hint.summary) ++
          statisticsText i t.engine.statistics ++ resultText o,
        .ok ⟨o, t.vars, (i.hint? read f.vars).map Hint.summary, t.engine.statistics⟩⟩ := by
  have hf := Formula.wellFormed_of_load h.formula
  have hresize := i.resize_eq hf.vars_le
  have hoptions : t.options = i.settings.options :=
    (Solver.search_rest hsearch).1.trans (i.options_ready read f.vars)
  have hconclude := conclude_run hsearch hf hright
  rw [hoptions] at hconclude
  cases hhint : i.hint? read f.vars with
  | none =>
    have hload := hhint ▸ h.loadInitialPhases_eq
    simp [run, program_eq, h.formula, hresize, hload, hconclude, hintText]
    rfl
  | some hint =>
    have hload := hhint ▸ h.loadInitialPhases_eq
    simp [run, program_eq, h.formula, hresize, hload, hconclude, hintText, options_ready]
    rfl

/-- A run that has all it needs ends with an answer, which is right and is printed last. -/
theorem Invocation.run_of_loads (h : i.Loads read f) :
    ∃ solved front, i.run read = ⟨front ++ resultText solved.outcome, .ok solved⟩ ∧
      EndsLine front ∧ solved.outcome.RightFor f := by
  obtain ⟨o, t, hsearch, hright⟩ := i.search_ready read (Formula.wellFormed_of_load h.formula)
  have hhint : EndsLine (hintText i ((i.hint? read f.vars).map Hint.summary)) := by
    unfold hintText
    split
    · exact .inl rfl
    · exact endsLine_message _ _
  have hstatistics : EndsLine (statisticsText i t.engine.statistics) := by
    unfold statisticsText
    split
    · exact .inl rfl
    · exact endsLine_statistics _
  have hparsed : EndsLine (parsedText i f) := endsLine_message _ _
  have hfront := (hparsed.append hhint).append hstatistics
  exact ⟨⟨o, _, _, _⟩, _, h.run_eq hsearch hright, hfront, hright⟩

/-! ## In a directory -/

variable {d d' : Directory} {arguments : List Argument} {output : String} {solved : Solved}

/-- A run that fails leaves the directory as it is, and its failure is the last thing printed. -/
theorem inDirectory_of_error (hi : Invocation.ofArguments? arguments = some i)
    {failure : RunFailure} (hrun : i.run d.read = ⟨output, .error failure⟩)
    (hfault : failure.fault? = none) :
    inDirectory d arguments =
      ({ code := Exit.failure, output := output ++ errorLine failure.chain }, d) := by
  simp [inDirectory, hi, hrun, Run.exit, hfault]

theorem inDirectory_of_formula_error (hi : Invocation.ofArguments? arguments = some i)
    {cause : Formula.LoadError} (hload : Formula.load d.read i.settings.input = .error cause) :
    inDirectory d arguments = ({ code := Exit.failure, output := errorLine cause.chain }, d) := by
  rw [inDirectory_of_error hi (i.run_of_formula_error hload) rfl, String.empty_append]
  rfl

theorem inDirectory_of_hint_error (hi : Invocation.ofArguments? arguments = some i)
    (hload : Formula.load d.read i.settings.input = .ok f) {path : Path} {e : Error}
    (hfile : i.initPhaseFile = some path) (hhint : Hint.load d.read path f.vars = .error e) :
    inDirectory d arguments =
      ({ code := Exit.failure, output := parsedText i f ++ errorLine e.chain }, d) := by
  rw [inDirectory_of_error hi (i.run_of_hint_error hload hfile hhint) rfl]
  rfl

/-- The line about a report that could not be written. -/
def reportLine : Except ReportFailure Unit → String
  | .ok () => ""
  | .error failure => errorLine failure.chain

/-- How writing the report goes, and the directory after it. -/
def Invocation.reporting (i : Invocation) (d : Directory) (solved : Solved) :
    Except ReportFailure Unit × Directory :=
  match i.settings.report with
  | none => (.ok (), d)
  | some path =>
    match d.write path (Utf8.encode (solved.report i.settings.input).1) with
    | .ok written => ((solved.report i.settings.input).2, written)
    | .error cause => (.error (.creating path cause), d)

/-- The exit code after an answer, given how writing the report went. -/
def Solved.code (s : Solved) : Except ReportFailure Unit → Nat
  | .ok () => s.outcome.exitCode
  | .error _ => Exit.failure

theorem exit_ok (output : String) (solved : Solved) (written : Except ReportFailure Unit) :
    Run.exit ⟨output, .ok solved⟩ written =
      { code := solved.code written, output := output ++ reportLine written } := by
  rcases written with failure | ⟨⟩
  · rfl
  · simp [Run.exit, Solved.code, reportLine]

/-- A run that ends with an answer also says what became of the report. -/
theorem inDirectory_of_ok (hi : Invocation.ofArguments? arguments = some i)
    (hrun : i.run d.read = ⟨output, .ok solved⟩) :
    inDirectory d arguments =
      ({ code := solved.code (i.reporting d solved).1,
         output := output ++ reportLine (i.reporting d solved).1 }, (i.reporting d solved).2) := by
  rw [← exit_ok]
  simp only [inDirectory, hi, hrun, Invocation.reporting]
  cases i.settings.report with
  | none => rfl
  | some path =>
    cases hwrite : d.write path (Utf8.encode (solved.report i.settings.input).1) <;>
      simp [hwrite]

/-- The directory after the report that was asked for, if any, has been written to it in full. -/
def Invocation.Reports (i : Invocation) (d d' : Directory) : Prop :=
  match i.settings.report with
  | none => d' = d
  | some path => ∃ solved text, (i.run d.read).result = .ok solved ∧
      i.settings.input.text? = some text ∧
      d.write path (Utf8.encode ((solved.json text).pretty 0)) = .ok d'

/-- The report is written in full exactly if this goes well. -/
theorem Invocation.reporting_eq_ok_iff (hrun : i.run d.read = ⟨output, .ok solved⟩) :
    i.reporting d solved = (.ok (), d') ↔ i.Reports d d' := by
  unfold reporting Reports
  cases i.settings.report with
  | none => simp [eq_comm]
  | some path =>
    cases htext : i.settings.input.text? with
    | none =>
      simp only [Solved.report, htext]
      split <;> simp
    | some text =>
      cases hwrite : d.write path (Utf8.encode ((solved.json text).pretty 0)) <;>
        simp [Solved.report, htext, hwrite, hrun]

/-- **After an answer and the report** the exit code is the one for the answer. -/
theorem inDirectory_of_reports (hi : Invocation.ofArguments? arguments = some i)
    (hrun : i.run d.read = ⟨output, .ok solved⟩) (h : i.Reports d d') :
    inDirectory d arguments = ({ code := solved.outcome.exitCode, output }, d') := by
  rw [inDirectory_of_ok hi hrun, (Invocation.reporting_eq_ok_iff hrun).2 h]
  simp [Solved.code, reportLine]

theorem code_of_not_reports (hi : Invocation.ofArguments? arguments = some i)
    (hrun : i.run d.read = ⟨output, .ok solved⟩) (h : ∀ d', ¬ i.Reports d d') :
    (inDirectory d arguments).1.code = Exit.failure := by
  rw [inDirectory_of_ok hi hrun]
  rcases hwritten : i.reporting d solved with ⟨failure | ⟨⟩, d'⟩
  · rfl
  · exact absurd ((Invocation.reporting_eq_ok_iff hrun).1 hwritten) (h d')

end Polarity.Solve
