import Polarity.Proofs.CommandLine.Arguments
import Polarity.Proofs.CommandLine.Run
import Polarity.Proofs.Search.Lockstep

/-!
# Quiet runs

**Theorem (`quiet_drops_diagnostics`).** If arguments are accepted with the option for a quiet run among
them and also without it, then the two runs end with the same exit code and leave the same files. The
quiet run prints the same less the diagnostics: the line that says what was read, the line about the
hint and the statistics, so far as the run got to them (`Invocation.Prints`).

* **Arguments.** The option changes nothing but the choice for which it stands
  (`Invocation.quiet_of_insert`).
* **Search.** A search does not look at this choice, which is why the two searches run in lockstep
  (`search_quieted`).
* **Output.** Without the choice the diagnostics stand in front of everything else, and with it they
  are empty (`Invocation.Loads.run_quieted`, `inDirectory_quieted`).
-/

namespace Polarity

/-- The solver with its diagnostics left out. -/
def Solver.quieted (s : Solver) : Solver := { s with options.quiet := true }

namespace Solve

variable {d : Directory} {arguments before after : List Argument} {q : Argument}
  {i j : Invocation} {read : Reader} {f : Formula}

/-! ## Arguments -/

/-- The invocation for a quiet run. -/
def Invocation.quieted (i : Invocation) : Invocation :=
  { i with settings.options.quiet := true }

/-- What was found among the arguments gives these settings. -/
structure Settings.GivenBy (s : Settings) (found : List Occurrence) : Prop where
  input : ∃ a, Switch.positionals found = [a] ∧ a.path? = some s.input
  timeout : ∃ v, Switch.value? "timeout-secs" found = some v ∧
    v.mapM Argument.word? = some s.timeout
  quiet : Switch.flag? "quiet" found = some s.options.quiet
  target : Switch.flag? "no-target" found = some !s.options.target
  initialPhase : ∃ v phase, Switch.value? "initial-phase" found = some v ∧
    v.mapM Argument.bool? = some phase ∧ s.options.initialPhase = Phase.ofBool (phase.getD true)
  report : ∃ v, Switch.value? "report" found = some v ∧ v.mapM Argument.path? = some s.report

theorem Settings.givenBy_of_ofArguments? {s : Settings} (h : ofArguments? arguments = some s) :
    ∃ found, Switch.scan? switches none arguments = some found ∧ s.GivenBy found := by
  obtain ⟨found, hscan, h⟩ := Option.bind_eq_some_iff.1 h
  split at h
  · next a ha =>
    simp only [Option.bind_eq_bind, Option.bind_eq_some_iff, Option.pure_def,
      Option.some.injEq] at h
    obtain ⟨input, hinput, t, ht, timeout, htimeout, quiet, hquiet, noTarget, hnoTarget, p, hp,
      phase, hphase, r, hr, report, hreport, rfl⟩ := h
    exact ⟨found, hscan, ⟨a, ha, hinput⟩, ⟨t, ht, htimeout⟩, hquiet, by simpa using hnoTarget,
      ⟨p, phase, hp, hphase, rfl⟩, ⟨r, hr, hreport⟩⟩
  · cases h

theorem Settings.GivenBy.unique {s s' : Settings} {found : List Occurrence}
    (h : s.GivenBy found) (h' : s'.GivenBy found) : s = s' := by
  obtain ⟨input, timeout, ⟨quiet, target, initialPhase⟩, report⟩ := s
  obtain ⟨input', timeout', ⟨quiet', target', initialPhase'⟩, report'⟩ := s'
  obtain ⟨⟨a, ha, hinput⟩, ⟨t, ht, htimeout⟩, hquiet, htarget, ⟨p, phase, hp, hphase, rfl⟩,
    ⟨r, hr, hreport⟩⟩ := h
  obtain ⟨⟨a', ha', hinput'⟩, ⟨t', ht', htimeout'⟩, hquiet', htarget',
    ⟨p', phase', hp', hphase', rfl⟩, ⟨r', hr', hreport'⟩⟩ := h'
  simp_all

/-- **One more option for a quiet run** changes the choice for which it stands and nothing else. -/
theorem Settings.GivenBy.insert_quiet {s : Settings} {front back : List Occurrence}
    (h : s.GivenBy (front ++ back))
    (hquiet : Switch.flag? "quiet" (front ++ Occurrence.flag "quiet" :: back) = some true) :
    { s with options.quiet := true }.GivenBy (front ++ Occurrence.flag "quiet" :: back) where
  input := by simpa only [Switch.positionals_insert_flag] using h.input
  timeout := by simpa only [Switch.value?_insert_flag] using h.timeout
  quiet := hquiet
  target := by rw [Switch.flag?_insert_flag_of_ne (by decide), h.target]
  initialPhase := by simpa only [Switch.value?_insert_flag] using h.initialPhase
  report := by simpa only [Switch.value?_insert_flag] using h.report

theorem Settings.quiet_of_insert {s s' : Settings}
    (hq : Switch.IsFlag switches q "quiet") (h : ofArguments? (before ++ after) = some s)
    (h' : ofArguments? (before ++ q :: after) = some s') :
    s.options.quiet = false ∧ s' = { s with options.quiet := true } := by
  obtain ⟨found, hscan, hgiven⟩ := givenBy_of_ofArguments? h
  obtain ⟨found', hscan', hgiven'⟩ := givenBy_of_ofArguments? h'
  obtain ⟨front, back, rfl, rfl | rfl⟩ := Switch.scan?_insert hq hscan hscan'
  · obtain ⟨hloud, hquiet⟩ := Switch.flag?_insert_flag hgiven.quiet hgiven'.quiet
    exact ⟨hloud, hgiven'.unique (hgiven.insert_quiet (hquiet ▸ hgiven'.quiet))⟩
  · -- There is one positional argument with the option and one without it.
    obtain ⟨a, ha, -⟩ := hgiven.input
    obtain ⟨a', ha', -⟩ := hgiven'.input
    have hlength := Switch.length_positionals_insert front back q
    rw [ha, ha'] at hlength
    cases hlength

/-- The names of the option for a quiet run. -/
def quietNames : List Argument := ["--quiet", "-q"].map Utf8.encode

theorem isFlag_of_mem_quietNames (hq : q ∈ quietNames) : Switch.IsFlag switches q "quiet" := by
  have hlong : Argument.shape (Utf8.encode "--quiet") = .long (Utf8.encode "quiet") none := by
    decide +kernel
  have hname : Switch.ofName? switches (Utf8.encode "quiet") =
      some { name := "quiet", short := some 'q', takesValue := false } := by decide +kernel
  have hshort : Argument.shape (Utf8.encode "-q") = .short [0x71] := by decide +kernel
  have hletter : Switch.ofShort? switches 0x71 =
      some { name := "quiet", short := some 'q', takesValue := false } := by decide +kernel
  simp only [quietNames, List.map_cons, List.map_nil, List.mem_cons, List.not_mem_nil,
    or_false] at hq
  rcases hq with rfl | rfl
  · exact .long hlong hname rfl rfl
  · exact .short hshort hletter rfl rfl

theorem path?_of_mem_quietNames (hq : q ∈ quietNames) : InitPhaseFile.path? q = none := by
  have hnames : ∀ q ∈ quietNames, InitPhaseFile.path? q = none := by decide +kernel
  exact hnames q hq

theorem Invocation.ofArguments?_eq_some_iff :
    Invocation.ofArguments? arguments = some i ↔
      Settings.ofArguments? (arguments.filter fun a => (InitPhaseFile.path? a).isNone) =
        some i.settings ∧ i.initPhaseFile = (arguments.filterMap InitPhaseFile.path?).getLast? := by
  simp only [ofArguments?, InitPhaseFile.extract, Option.bind_eq_bind, Option.bind_eq_some_iff,
    Option.pure_def, Option.some.injEq]
  constructor
  · rintro ⟨s, hs, rfl⟩
    exact ⟨hs, rfl⟩
  · rintro ⟨hs, hfile⟩
    exact ⟨i.settings, hs, by rw [← hfile]⟩

/-- **One more option for a quiet run** makes the run quiet and changes nothing else. -/
theorem Invocation.quiet_of_insert (hq : q ∈ quietNames)
    (hi : Invocation.ofArguments? (before ++ after) = some i)
    (hj : Invocation.ofArguments? (before ++ q :: after) = some j) :
    i.settings.options.quiet = false ∧ j = i.quieted := by
  have hpath := path?_of_mem_quietNames hq
  obtain ⟨hs, hfile⟩ := ofArguments?_eq_some_iff.1 hi
  obtain ⟨hs', hfile'⟩ := ofArguments?_eq_some_iff.1 hj
  rw [List.filter_append] at hs
  rw [List.filter_append, List.filter_cons_of_pos (by simp [hpath])] at hs'
  obtain ⟨hloud, hquiet⟩ := Settings.quiet_of_insert (isFlag_of_mem_quietNames hq) hs hs'
  refine ⟨hloud, ?_⟩
  rw [List.filterMap_append, List.filterMap_cons_none hpath, ← List.filterMap_append, ← hfile]
    at hfile'
  obtain ⟨settings, file⟩ := j
  obtain rfl : settings = { i.settings with options.quiet := true } := hquiet
  obtain rfl : file = i.initPhaseFile := hfile'
  rfl

/-! ## Search -/

theorem Invocation.ready_quieted (i : Invocation) (read : Reader) (n : Nat) :
    i.quieted.ready read n = (i.ready read n).quieted := by
  have hhint : i.quieted.hint? read n = i.hint? read n := rfl
  unfold ready
  rw [hhint]
  split <;> rfl

/-- **A search does not look at whether the run is quiet.** -/
theorem search_quieted {s t : Solver} {o : Outcome} (hf : f.WellFormed) (hs : s.SizedTo f)
    (h : Solver.search f s = .ok o t) :
    ∃ t', Solver.search f s.quieted = .ok o t' ∧ t'.vars = t.vars ∧ t'.engine = t.engine := by
  have hpaired : s.Paired ⟨false, true, true⟩ s.quieted := {
    store := ⟨hs.consistent, rfl, ⟨⟨rfl, fun _ => rfl⟩, rfl, ⟨rfl, fun _ => rfl⟩⟩⟩
    engine := rfl
    useTarget := rfl
    seen := fun _ => rfl
    initial := rfl
    set := nofun }
  obtain ⟨o', u, t', hu, ht', hpaired'⟩ := Solver.search_of_paired hf hs hpaired
  simp only [mirror_false] at ht'
  obtain ⟨rfl, rfl⟩ : o = o' ∧ t = u := by simpa [h] using hu
  have hassignment : t'.store.assignment = t.store.assignment := by
    simpa only [mirror_false] using hpaired'.store.assignment
  exact ⟨t', ht', congrArg Assignment.vars hassignment, hpaired'.engine⟩

/-! ## Output -/

/-- The line that says what the formula file holds. -/
def parsedLine (f : Formula) : String :=
  "c " ++ s!"parsed {f.vars} variables and {f.clauses.length} clauses" ++ "\n"

/-- The line that says what the hint holds, if one is loaded. -/
def summaryLine : Option Hint.Summary → String
  | none => ""
  | some summary => "c " ++ summary.text ++ "\n"

/-- The diagnostics that a run prints, and what it prints behind them. -/
inductive Invocation.Prints (i : Invocation) (d : Directory) : String → String → Prop
  | unread {cause : Formula.LoadError} (load : Formula.load d.read i.settings.input = .error cause) :
      Prints i d "" (errorLine cause.chain)
  | unhinted {f : Formula} {path : Path} {e : Error}
      (load : Formula.load d.read i.settings.input = .ok f) (file : i.initPhaseFile = some path)
      (hint : Hint.load d.read path f.vars = .error e) :
      Prints i d (parsedLine f) (errorLine e.chain)
  | answered {f : Formula} {solved : Solved} (loads : i.Loads d.read f)
      (run : (i.run d.read).result = .ok solved) :
      Prints i d (parsedLine f ++ summaryLine solved.initPhase ++ solved.statistics.text)
        (resultText solved.outcome ++ reportLine (i.reporting d solved).1)

theorem parsedText_eq (hloud : i.settings.options.quiet = false) (f : Formula) :
    parsedText i f = parsedLine f := by
  rw [parsedText, parsedLine, Options.message, hloud]
  rfl

theorem parsedText_quieted (i : Invocation) (f : Formula) : parsedText i.quieted f = "" := rfl

theorem hintText_eq (hloud : i.settings.options.quiet = false) (summary : Option Hint.Summary) :
    hintText i summary = summaryLine summary := by
  cases summary with
  | none => rfl
  | some summary =>
    rw [hintText, summaryLine, Options.message, hloud]
    rfl

theorem hintText_quieted (i : Invocation) (summary : Option Hint.Summary) :
    hintText i.quieted summary = "" := by
  cases summary <;> rfl

theorem statisticsText_eq (hloud : i.settings.options.quiet = false) (s : Statistics) :
    statisticsText i s = s.text := by
  rw [statisticsText, hloud]
  rfl

theorem statisticsText_quieted (i : Invocation) (s : Statistics) :
    statisticsText i.quieted s = "" := rfl

/-- **The run of a quiet invocation** has the same result, and the answer is all it prints. -/
theorem Invocation.Loads.run_quieted (h : i.Loads read f)
    (hloud : i.settings.options.quiet = false) :
    ∃ solved, i.run read = ⟨parsedLine f ++ summaryLine solved.initPhase ++
        solved.statistics.text ++ resultText solved.outcome, .ok solved⟩ ∧
      i.quieted.run read = ⟨resultText solved.outcome, .ok solved⟩ := by
  have hf := Formula.wellFormed_of_load h.formula
  obtain ⟨o, t, hsearch, hright⟩ := i.search_ready read hf
  have hidle := (i.idle_ready read f).1
  have hsized : (i.ready read f.vars).SizedTo f := ⟨hidle.consistent, hidle.vars, hidle.phases⟩
  obtain ⟨t', hsearch', hvars, hengine⟩ := search_quieted hf hsized hsearch
  have hquieted : i.quieted.Loads read f := ⟨h.formula, h.hint⟩
  have hrun := h.run_eq hsearch hright
  have hrun' := hquieted.run_eq (i.ready_quieted read f.vars ▸ hsearch') hright
  rw [parsedText_eq hloud, hintText_eq hloud, statisticsText_eq hloud] at hrun
  rw [parsedText_quieted, hintText_quieted, statisticsText_quieted, hvars, hengine] at hrun'
  refine ⟨⟨o, t.vars, (i.hint? read f.vars).map Hint.summary, t.engine.statistics⟩, hrun, ?_⟩
  simp only [String.empty_append] at hrun'
  exact hrun'

/-- **The two runs in a directory.** -/
theorem inDirectory_quieted {arguments' : List Argument}
    (hi : Invocation.ofArguments? arguments = some i)
    (hj : Invocation.ofArguments? arguments' = some i.quieted)
    (hloud : i.settings.options.quiet = false) (d : Directory) :
    ∃ diagnostics rest code d', i.Prints d diagnostics rest ∧
      inDirectory d arguments = ({ code, output := diagnostics ++ rest }, d') ∧
      inDirectory d arguments' = ({ code, output := rest }, d') := by
  rcases i.start_cases d.read with ⟨cause, hload⟩ | ⟨f, path, e, hload, hfile, hhint⟩ | ⟨f, hloads⟩
  · refine ⟨_, _, _, _, .unread hload, ?_, inDirectory_of_formula_error hj hload⟩
    rw [String.empty_append]
    exact inDirectory_of_formula_error hi hload
  · refine ⟨_, _, Exit.failure, d, .unhinted hload hfile hhint, ?_, ?_⟩
    · rw [← parsedText_eq hloud]
      exact inDirectory_of_hint_error hi hload hfile hhint
    · have hquiet := inDirectory_of_hint_error hj hload hfile hhint
      rwa [parsedText_quieted, String.empty_append] at hquiet
  · obtain ⟨solved, hrun, hrun'⟩ := hloads.run_quieted hloud
    have hprints := Invocation.Prints.answered hloads (congrArg Run.result hrun)
    have hend := inDirectory_of_ok hi hrun
    have hend' := inDirectory_of_ok hj hrun'
    rw [String.append_assoc] at hend
    exact ⟨_, _, _, _, hprints, hend, hend'⟩

/-- **Quiet mode leaves out diagnostics and changes nothing else.** Of two runs, one of which has one more
option for a quiet run, this one has the same exit code and leaves the same files, and it prints the
same less the diagnostics. -/
theorem quiet_drops_diagnostics (hq : q ∈ quietNames)
    (hi : Invocation.ofArguments? (before ++ after) = some i)
    (hj : Invocation.ofArguments? (before ++ q :: after) = some j) (d : Directory) :
    ∃ diagnostics rest, i.Prints d diagnostics rest ∧
      (inDirectory d (before ++ after)).1.output = diagnostics ++ rest ∧
      (inDirectory d (before ++ q :: after)).1 =
        { (inDirectory d (before ++ after)).1 with output := rest } ∧
      (inDirectory d (before ++ q :: after)).2 = (inDirectory d (before ++ after)).2 := by
  obtain ⟨hloud, rfl⟩ := Invocation.quiet_of_insert hq hi hj
  obtain ⟨diagnostics, rest, code, d', hprints, hrun, hrun'⟩ := inDirectory_quieted hi hj hloud d
  refine ⟨diagnostics, rest, hprints, ?_, ?_, ?_⟩
  · rw [hrun]
  · rw [hrun, hrun']
  · rw [hrun, hrun']

/-- A directory with a formula and a hint for it. -/
def advised : Directory where
  nodes := [([Utf8.encode "a.cnf"], .file (Utf8.encode "p cnf 1 0\n")),
    ([Utf8.encode "h"], .file (Utf8.encode "0"))]

/-- The argument that names the hint. -/
def advice : List Argument := [Utf8.encode "--init-phase-file=h"]

/-- Arguments that ask for a report on the formula. -/
def reported : List Argument := ["--report", "r", "a.cnf"].map Utf8.encode

/-- All diagnostics are left out by an option that stands between others. -/
theorem quiet_drops_diagnostics_advised :
    ∃ solved : Solved, (inDirectory advised (advice ++ reported)).1.output =
      parsedLine ⟨1, []⟩ ++ summaryLine solved.initPhase ++ solved.statistics.text ++
        (inDirectory advised (advice ++ Utf8.encode "-q" :: reported)).1.output := by
  have hi : Invocation.ofArguments? (advice ++ reported) =
      some ⟨⟨.ofText "a.cnf", none, {}, some (.ofText "r")⟩, some (.ofText "h")⟩ := by
    decide +kernel
  have hj : Invocation.ofArguments? (advice ++ Utf8.encode "-q" :: reported) =
      some ⟨⟨.ofText "a.cnf", none, { quiet := true }, some (.ofText "r")⟩, some (.ofText "h")⟩ := by
    decide +kernel
  have hload : Formula.load advised.read (.ofText "a.cnf") = .ok ⟨1, []⟩ := by decide +kernel
  have hhint : Hint.load advised.read (.ofText "h") 1 = .ok ⟨.ofText "h", [.negative]⟩ := by
    decide +kernel
  obtain ⟨diagnostics, rest, hprints, hloud, hquiet, -⟩ :=
    quiet_drops_diagnostics (by decide +kernel) hi hj advised
  cases hprints with
  | unread load => cases load.symm.trans hload
  | unhinted load file hint =>
    obtain rfl := Except.ok.inj (load.symm.trans hload)
    obtain rfl := Option.some.inj file
    cases hint.symm.trans hhint
  | @answered f solved loads run =>
    obtain rfl := Except.ok.inj (loads.formula.symm.trans hload)
    exact ⟨solved, by rw [hloud, hquiet]⟩

end Solve

end Polarity
