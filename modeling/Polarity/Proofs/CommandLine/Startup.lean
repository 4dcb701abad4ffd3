import Polarity.Proofs.CommandLine.Diagnostics
import Polarity.Proofs.CommandLine.Run

/-!
# Failures on startup

A run whose formula cannot be read or whose hint cannot be loaded ends with exit code 1 and leaves
the directory as it is. All it prints is what the formula file holds, if it was read, and the report
of the failure.

**Theorem (`startup_failure_reported`).** The failure is reported by one line, the last one, with all
that is known about it, and no line looks like a status or a part of a model, just in case the path
that the report shows has no newline. Paths are shown as they are, so that a path with a newline
breaks the line on which it stands, and what follows can look like a status
(`failure_fakes_status`).
-/

namespace Polarity.Solve

variable {d : Directory} {arguments : List Argument} {i : Invocation}

/-- What the formula file holds is reported on one line or not at all. -/
theorem toList_parsedText (i : Invocation) (f : Formula) :
    ∃ front : List (List Char), (parsedText i f).toList = front.flatMap (· ++ ['\n']) ∧
      ∀ line ∈ front, Text.IsLine line ∧ ∃ rest, line = 'c' :: ' ' :: 'p' :: rest := by
  unfold parsedText Options.message
  split
  · exact ⟨[], rfl, nofun⟩
  · refine ⟨[(s!"c parsed {f.vars} variables and {f.clauses.length} clauses").toList], ?_, ?_⟩
    · simp [Text.toString_eq]
    · rw [List.forall_mem_singleton]
      constructor
      · simp [Text.isLine_iff, Text.toString_eq, List.getLast?_cons, List.getLast?_append]
      · simp [Text.toString_eq]

/-- **A failure on startup is reported once, just in case the path that is shown has no newline.** The
exit code is 1, and nothing but the report follows what the formula file holds. -/
theorem startup_failure_reported (hi : Invocation.ofArguments? arguments = some i) :
    (∀ cause, Formula.load d.read i.settings.input = .error cause →
      inDirectory d arguments = ({ code := 1, output := errorLine cause.chain }, d) ∧
        (ReportedOnce cause.chain (inDirectory d arguments).1.output ↔
          Utf8.newline ∉ i.settings.input.bytes)) ∧
      ∀ f path e, Formula.load d.read i.settings.input = .ok f → i.initPhaseFile = some path →
        Hint.load d.read path f.vars = .error e →
          inDirectory d arguments =
            ({ code := 1, output := parsedText i f ++ errorLine e.chain }, d) ∧
          (ReportedOnce e.chain (inDirectory d arguments).1.output ↔
            Utf8.newline ∉ path.bytes) := by
  constructor
  · intro cause hload
    have hexit := inDirectory_of_formula_error hi hload
    refine ⟨hexit, ?_⟩
    rw [hexit]
    exact reportedOnce_iff (Formula.shownFirst_of_load hload) [] nofun rfl
  · intro f path e hload hfile hhint
    have hexit := inDirectory_of_hint_error hi hload hfile hhint
    obtain ⟨front, hfront, hlines⟩ := toList_parsedText i f
    refine ⟨hexit, ?_⟩
    rw [hexit]
    refine reportedOnce_iff (Hint.shownFirst_of_load hhint) front hlines ?_
    rw [String.toList_append, hfront]

/-- A directory with a formula and a hint that has a word too many. -/
def crowded : Directory where
  nodes := [([Utf8.encode "a.cnf"], .file (Utf8.encode "p cnf 1 0\n")),
    ([Utf8.encode "h"], .file (Utf8.encode "maybe\n1"))]

/-- Arguments that name a hint file. -/
def hinting : List Argument := ["--init-phase-file=h", "a.cnf"].map Utf8.encode

theorem startup_failure_reported_crowded :
    ReportedOnce (Error.badToken "maybe" 0 (.ofText "h")).chain
        (inDirectory crowded hinting).1.output ∧
      ReportedOnce (Formula.LoadError.reading (.ofText "b.cnf") .notFound).chain
        (inDirectory crowded [Utf8.encode "b.cnf"]).1.output := by
  constructor
  · have hi : Invocation.ofArguments? hinting =
        some ⟨⟨.ofText "a.cnf", none, {}, none⟩, some (.ofText "h")⟩ := by decide +kernel
    have hreported := (startup_failure_reported (d := crowded) hi).2 ⟨1, []⟩ (.ofText "h")
      (.badToken "maybe" 0 (.ofText "h")) (by decide +kernel) rfl (by decide +kernel)
    exact hreported.2.2 (by decide +kernel)
  · have hi : Invocation.ofArguments? [Utf8.encode "b.cnf"] =
        some ⟨⟨.ofText "b.cnf", none, {}, none⟩, none⟩ := by decide +kernel
    have hreported := (startup_failure_reported (d := crowded) hi).1
      (.reading (.ofText "b.cnf") .notFound) (by decide +kernel)
    exact hreported.2.2 (by decide +kernel)

/-- The name of a file that is not there, which breaks the line on which it is shown. -/
def breaking : List Argument := [Utf8.encode "a\ns SATISFIABLE"]

/-- **A failure can look like a status.** -/
theorem failure_fakes_status :
    ¬ ∀ (d : Directory) (arguments : List Argument) (i : Invocation) (cause : Formula.LoadError),
      Invocation.ofArguments? arguments = some i →
      Formula.load d.read i.settings.input = .error cause →
      ReportedOnce cause.chain (inDirectory d arguments).1.output := by
  intro h
  have hreported := h {} breaking ⟨⟨⟨Utf8.encode "a\ns SATISFIABLE"⟩, none, {}, none⟩, none⟩
    (.reading ⟨Utf8.encode "a\ns SATISFIABLE"⟩ .notFound) (by decide +kernel) (by decide +kernel)
  have hline : "s SATISFIABLE': No such file or directory (os error 2)".toList ∈
      Text.lines (inDirectory {} breaking).1.output.toList := by decide +kernel
  exact (hreported.silent _ hline).1 (by decide)

end Polarity.Solve
