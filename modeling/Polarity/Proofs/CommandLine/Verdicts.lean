import Mathlib.Data.List.Nodup
import Polarity.Proofs.CommandLine.Run

/-!
# What the exit code says

**Theorem (`exit_code_tells_truth`).** The exit code is 10 if the formula and the hint can be loaded,
the formula can be satisfied and the report can be written; it is 20 if all this holds except that the
formula cannot be satisfied; and otherwise it is 1. With 10 a model of the formula is printed, and if
the formula or the hint cannot be loaded, then no answer is printed and the directory stays as it is.
So no options and no hint turn 10 into 20 or back.

A run ends in one of four ways (`Ending`), each of which settles the exit code, what is printed and
what becomes of the directory. What is left to show is that an answer that is right about a formula
has the exit code that says so (`Outcome.RightFor.exitCode_eq_ten_iff`), and that the lines of a model
hold all of its numbers in their order (`flatten_chunks`).
-/

namespace Polarity

variable {f : Formula} {o : Outcome} {m : List Literal}

/-! ## Right answers -/

theorem Outcome.RightFor.eq_of_var_eq (hm : (Outcome.sat m).RightFor f) {k l : Literal}
    (hk : k ∈ m) (hl : l ∈ m) (hvar : k.var = l.var) : k = l := by
  have hnodup : (m.map (·.var)).Nodup := by
    rw [hm.1, List.nodup_map_iff fun _ _ h => congrArg Variable.index h]
    exact List.nodup_range
  exact List.inj_on_of_nodup_map hnodup hk hl hvar

/-- The literals of a model are true together. -/
theorem Outcome.RightFor.exists_satisfiedBy (hm : (Outcome.sat m).RightFor f) :
    ∃ μ, f.SatisfiedBy μ := by
  refine ⟨fun v => decide (⟨v, true⟩ ∈ m), fun c hc => ?_⟩
  obtain ⟨⟨v, positive⟩, hl, hlm⟩ := hm.2 c hc
  refine ⟨⟨v, positive⟩, hl, ?_⟩
  cases positive with
  | true => exact decide_eq_true hlm
  | false => exact decide_eq_false fun htrue => absurd (hm.eq_of_var_eq htrue hlm rfl) (by simp)

theorem Outcome.RightFor.exitCode_eq_ten_iff (h : o.RightFor f) :
    o.exitCode = 10 ↔ ∃ μ, f.SatisfiedBy μ := by
  cases o with
  | sat m => exact iff_of_true rfl h.exists_satisfiedBy
  | unsat => exact iff_of_false (by decide) fun ⟨μ, hμ⟩ => h μ hμ
  | unknown => exact h.elim

theorem Outcome.RightFor.exitCode_eq_twenty_iff (h : o.RightFor f) :
    o.exitCode = 20 ↔ ¬ ∃ μ, f.SatisfiedBy μ := by
  cases o with
  | sat m => exact iff_of_false (fun h => by cases h) fun hnone => hnone h.exists_satisfiedBy
  | unsat => exact iff_of_true rfl fun ⟨μ, hμ⟩ => h μ hμ
  | unknown => exact h.elim

theorem Outcome.RightFor.natAbs_number (hm : (Outcome.sat m).RightFor f) :
    (m.map Literal.number).map Int.natAbs = List.range' 1 f.vars := by
  calc (m.map Literal.number).map Int.natAbs
      = (m.map (·.var)).map fun v => 1 + v.index := by
        simp [Literal.natAbs_number, Nat.add_comm]
    _ = List.range' 1 f.vars := by
        rw [hm.1, List.map_map, List.range'_eq_map_range]
        rfl

namespace Solve

/-! ## The lines of a model -/

variable {α : Type} {size : Nat} {l : List α}

/-- The first parts of a list put together are a start of the list. -/
theorem flatten_parts (size : Nat) (l : List α) (k : Nat) :
    ((List.range k).map fun i => (l.drop (i * size)).take size).flatten = l.take (k * size) := by
  induction k with
  | zero => simp
  | succ k ih =>
    rw [List.range_succ, List.map_append, List.flatten_append, ih, List.map_singleton,
      List.flatten_singleton, ← List.take_add, Nat.succ_mul]

/-- **The parts put together are the list.** -/
theorem flatten_chunks (hsize : 0 < size) (l : List α) : (chunks size l).flatten = l := by
  have hcover := Nat.lt_div_mul_add (a := l.length + (size - 1)) hsize
  rw [chunks, flatten_parts]
  exact List.take_of_length_le (by omega)

theorem length_of_mem_chunks (hsize : 0 < size) {part : List α} (hpart : part ∈ chunks size l) :
    part ≠ [] ∧ part.length ≤ size := by
  obtain ⟨i, hi, rfl⟩ := List.mem_map.1 hpart
  have hstart : i * size < l.length := by
    have hlast := (Nat.lt_div_iff_mul_lt hsize).1 (List.mem_range.1 hi)
    omega
  refine ⟨List.ne_nil_of_length_pos ?_, List.length_take_le _ _⟩
  rw [List.length_take, List.length_drop]
  omega

/-- The output ends with the line for a satisfiable formula and the lines of a model: at most ten
numbers to a line, for each variable one in order, and one of each clause. -/
inductive ShowsModel (f : Formula) (output : String) : Prop
  | intro (front : String) (rows : List (List Int)) (starts : EndsLine front)
      (shown : output = front ++ "s SATISFIABLE\n" ++
        String.join (rows.map fun row => "v " ++ " ".intercalate (row.map toString) ++ "\n") ++
          "v 0\n")
      (short : ∀ row ∈ rows, row ≠ [] ∧ row.length ≤ 10)
      (numbered : rows.flatten.map Int.natAbs = List.range' 1 f.vars)
      (satisfies : ∀ c ∈ f.clauses, ∃ l ∈ c, l.number ∈ rows.flatten)

theorem showsModel_of_rightFor {front : String} (hfront : EndsLine front)
    (hm : (Outcome.sat m).RightFor f) : ShowsModel f (front ++ resultText (.sat m)) := by
  have hsize : 0 < literalsPerLine := by decide
  have hflatten := flatten_chunks hsize (m.map Literal.number)
  refine ⟨front, chunks literalsPerLine (m.map Literal.number), hfront, ?_, fun row hrow => ?_, ?_,
    fun c hc => ?_⟩
  · rw [String.append_assoc, String.append_assoc]
    rfl
  · exact length_of_mem_chunks hsize hrow
  · rw [hflatten, hm.natAbs_number]
  · obtain ⟨l, hl, hlm⟩ := hm.2 c hc
    exact ⟨l, hl, hflatten.symm ▸ List.mem_map_of_mem hlm⟩

/-! ## How a run ends -/

variable {d : Directory} {arguments : List Argument} {i : Invocation}

/-- The formula and the hint can be loaded, and the report can be written. -/
structure Invocation.Completes (i : Invocation) (d : Directory) (f : Formula) : Prop where
  loads : i.Loads d.read f
  reports : ∃ d', i.Reports d d'

/-- The ways in which a run ends: the formula or the hint cannot be loaded, the report cannot be
written, or none of this is in the way of a right answer. -/
inductive Ending (d : Directory) (i : Invocation) : Exit × Directory → Prop
  | formula {cause : Formula.LoadError}
      (load : Formula.load d.read i.settings.input = .error cause) :
      Ending d i ({ code := 1, output := errorLine cause.chain }, d)
  | hint {f : Formula} {path : Path} {e : Error}
      (load : Formula.load d.read i.settings.input = .ok f) (file : i.initPhaseFile = some path)
      (hint : Hint.load d.read path f.vars = .error e) :
      Ending d i ({ code := 1, output := parsedText i f ++ errorLine e.chain }, d)
  | unreported {e : Exit × Directory} {f : Formula} (loads : i.Loads d.read f)
      (unwritten : ∀ d', ¬ i.Reports d d') (code : e.1.code = 1) : Ending d i e
  | answered {f : Formula} {o : Outcome} {front : String} {d' : Directory}
      (loads : i.Loads d.read f) (right : o.RightFor f) (starts : EndsLine front)
      (reports : i.Reports d d') :
      Ending d i ({ code := o.exitCode, output := front ++ resultText o }, d')

theorem inDirectory_ending (hi : Invocation.ofArguments? arguments = some i) :
    Ending d i (inDirectory d arguments) := by
  rcases i.start_cases d.read with ⟨cause, hload⟩ | ⟨f, path, e, hload, hfile, hhint⟩ | ⟨f, hloads⟩
  · rw [inDirectory_of_formula_error hi hload]
    exact .formula hload
  · rw [inDirectory_of_hint_error hi hload hfile hhint]
    exact .hint hload hfile hhint
  · obtain ⟨solved, front, hrun, hfront, hright⟩ := i.run_of_loads hloads
    by_cases hreports : ∃ d', i.Reports d d'
    · obtain ⟨d', hd'⟩ := hreports
      rw [inDirectory_of_reports hi hrun hd']
      exact .answered hloads hright hfront hd'
    · rw [not_exists] at hreports
      exact .unreported hloads hreports (code_of_not_reports hi hrun hreports)

theorem Invocation.Loads.unique {read : Reader} {g : Formula} (hf : i.Loads read f)
    (hg : i.Loads read g) : f = g :=
  Except.ok.inj (hf.formula.symm.trans hg.formula)

namespace Ending

variable {e : Exit × Directory}

/-- **The exit code, if nothing is in the way of an answer.** -/
theorem code_of_completes (h : Ending d i e) (hf : i.Completes d f) :
    ∃ o : Outcome, o.RightFor f ∧ e.1.code = o.exitCode := by
  obtain ⟨hloads, d', hd'⟩ := hf
  cases h with
  | formula load => cases load.symm.trans hloads.formula
  | hint load file hint =>
    obtain rfl := Except.ok.inj (hloads.formula.symm.trans load)
    obtain ⟨loaded, hloaded⟩ := hloads.hint _ file
    cases hint.symm.trans hloaded
  | unreported _ unwritten => exact absurd hd' (unwritten d')
  | answered loads right =>
    obtain rfl := hloads.unique loads
    exact ⟨_, right, rfl⟩

/-- **Otherwise the exit code is 1.** -/
theorem code_of_not_completes (h : Ending d i e) (hnone : ∀ f, ¬ i.Completes d f) :
    e.1.code = 1 := by
  cases h with
  | formula => rfl
  | hint => rfl
  | unreported _ _ code => exact code
  | answered loads _ _ reports => exact absurd ⟨loads, _, reports⟩ (hnone _)

/-- An exit code of right answers tells which formulas have such an answer. -/
theorem code_eq_iff (h : Ending d i e) {code : Nat} (hcode : 1 ≠ code) {P : Formula → Prop}
    (hright : ∀ f (o : Outcome), o.RightFor f → (o.exitCode = code ↔ P f)) :
    e.1.code = code ↔ ∃ f, i.Completes d f ∧ P f := by
  by_cases hcompletes : ∃ f, i.Completes d f
  · obtain ⟨f, hf⟩ := hcompletes
    obtain ⟨o, ho, heq⟩ := h.code_of_completes hf
    rw [heq, hright f o ho]
    exact ⟨fun hP => ⟨f, hf, hP⟩, fun ⟨g, hg, hP⟩ => hf.loads.unique hg.loads ▸ hP⟩
  · rw [not_exists] at hcompletes
    rw [h.code_of_not_completes hcompletes]
    exact iff_of_false hcode fun ⟨f, hf, _⟩ => hcompletes f hf

theorem reports_of_code_ne (h : Ending d i e) (hcode : e.1.code ≠ 1) : i.Reports d e.2 := by
  cases h with
  | formula => exact absurd rfl hcode
  | hint => exact absurd rfl hcode
  | unreported _ _ code => exact absurd code hcode
  | answered _ _ _ reports => exact reports

theorem showsModel_of_code_eq (h : Ending d i e)
    (hload : Formula.load d.read i.settings.input = .ok f) (hcode : e.1.code = 10) :
    ShowsModel f e.1.output := by
  cases h with
  | formula => cases hcode
  | hint => cases hcode
  | unreported _ _ code => cases code.symm.trans hcode
  | @answered g o _ _ loads right starts =>
    obtain rfl : f = g := Except.ok.inj (hload.symm.trans loads.formula)
    cases o with
    | sat m => exact showsModel_of_rightFor starts right
    | _ => cases hcode

end Ending

/-! ## The truth -/

/-- What the exit code, the output and the directory after a run say. If the formula or the hint
cannot be loaded, the output has no answer in it. -/
structure TellsTruth (d : Directory) (i : Invocation) (e : Exit) (d' : Directory) : Prop where
  satisfiable : e.code = 10 ↔ ∃ f, i.Completes d f ∧ ∃ μ, f.SatisfiedBy μ
  unsatisfiable : e.code = 20 ↔ ∃ f, i.Completes d f ∧ ¬ ∃ μ, f.SatisfiedBy μ
  otherwise : e.code ≠ 10 → e.code ≠ 20 → e.code = 1
  reported : e.code = 10 ∨ e.code = 20 → i.Reports d d'
  model : ∀ f, Formula.load d.read i.settings.input = .ok f → e.code = 10 → ShowsModel f e.output
  noFormula : ∀ cause, Formula.load d.read i.settings.input = .error cause →
    e.output = errorLine cause.chain ∧ d' = d
  noHint : ∀ f path cause, Formula.load d.read i.settings.input = .ok f →
    i.initPhaseFile = some path → Hint.load d.read path f.vars = .error cause →
      e.output = parsedText i f ++ errorLine cause.chain ∧ d' = d

theorem inDirectory_tellsTruth (hi : Invocation.ofArguments? arguments = some i) :
    TellsTruth d i (inDirectory d arguments).1 (inDirectory d arguments).2 where
  satisfiable := (inDirectory_ending hi).code_eq_iff (by decide) fun _ _ h => h.exitCode_eq_ten_iff
  unsatisfiable :=
    (inDirectory_ending hi).code_eq_iff (by decide) fun _ _ h => h.exitCode_eq_twenty_iff
  otherwise hten htwenty := by
    refine (inDirectory_ending hi).code_of_not_completes fun f hf => ?_
    obtain ⟨o, ho, hcode⟩ := (inDirectory_ending hi).code_of_completes hf
    rw [hcode, Ne, ho.exitCode_eq_ten_iff] at hten
    rw [hcode, Ne, ho.exitCode_eq_twenty_iff] at htwenty
    exact htwenty hten
  reported hcode := (inDirectory_ending hi).reports_of_code_ne (by omega)
  model f hload hcode := (inDirectory_ending hi).showsModel_of_code_eq hload hcode
  noFormula cause hload := by
    rw [inDirectory_of_formula_error hi hload]
    exact ⟨rfl, rfl⟩
  noHint f path cause hload hfile hhint := by
    rw [inDirectory_of_hint_error hi hload hfile hhint]
    exact ⟨rfl, rfl⟩

/-- **The exit code tells the truth**, and neither options nor a hint change which of the two answers
is given about a formula. -/
theorem exit_code_tells_truth (hi : Invocation.ofArguments? arguments = some i) :
    TellsTruth d i (inDirectory d arguments).1 (inDirectory d arguments).2 ∧
      ∀ (other : Directory) (others : List Argument) (j : Invocation),
        Invocation.ofArguments? others = some j →
        Formula.load other.read j.settings.input = Formula.load d.read i.settings.input →
        (inDirectory d arguments).1.code = 10 → (inDirectory other others).1.code ≠ 20 := by
  refine ⟨inDirectory_tellsTruth hi, fun other others j hj hsame hten htwenty => ?_⟩
  obtain ⟨f, hf, hμ⟩ := (inDirectory_tellsTruth hi).satisfiable.1 hten
  obtain ⟨g, hg, hnone⟩ := (inDirectory_tellsTruth hj).unsatisfiable.1 htwenty
  have hload := hg.loads.formula
  rw [hsame, hf.loads.formula] at hload
  exact hnone (Except.ok.inj hload ▸ hμ)

/-- A formula with one model. -/
def single : Formula := ⟨2, [[⟨⟨0⟩, true⟩, ⟨⟨1⟩, true⟩], [⟨⟨0⟩, false⟩]]⟩

/-- A directory with this formula and a hint that is far from its model. -/
def hinted : Directory where
  nodes := [([Utf8.encode "a.cnf"], .file (Utf8.encode "p cnf 2 2\n1 2 0\n-1 0\n")),
    ([Utf8.encode "h"], .file (Utf8.encode "1 0"))]

/-- Arguments that name a hint file and a report. -/
def verbose : List Argument :=
  ["--init-phase-file=h", "--no-target", "--initial-phase=false", "--report", "r", "a.cnf"].map
    Utf8.encode

theorem exit_code_tells_truth_hinted :
    (inDirectory hinted verbose).1.code = 10 ∧
      ShowsModel single (inDirectory hinted verbose).1.output ∧
      (inDirectory hinted [Utf8.encode "a.cnf"]).1.code ≠ 20 := by
  let i : Invocation := ⟨⟨.ofText "a.cnf", none, ⟨false, false, .negative⟩, some (.ofText "r")⟩,
    some (.ofText "h")⟩
  have hi : Invocation.ofArguments? verbose = some i := by decide +kernel
  have hload : Formula.load hinted.read i.settings.input = .ok single := by decide +kernel
  have hhint : Hint.load hinted.read (.ofText "h") 2 =
      .ok ⟨.ofText "h", [.positive, .negative]⟩ := by decide +kernel
  have hloads : i.Loads hinted.read single :=
    ⟨hload, fun path hpath => ⟨_, Option.some.inj hpath ▸ hhint⟩⟩
  have hlocate : hinted.locate (.ofText "r") = .ok [Utf8.encode "r"] := by decide +kernel
  have hwrite (bytes : List UInt8) : hinted.write (.ofText "r") bytes =
      .ok (hinted.put [Utf8.encode "r"] (.file bytes)) := by
    rw [Directory.write, hlocate]
    rfl
  have hreports : ∃ d', i.Reports hinted d' := by
    obtain ⟨solved, front, hrun, -⟩ := i.run_of_loads hloads
    exact ⟨_, solved, "a.cnf", by rw [hrun], by decide +kernel, hwrite _⟩
  obtain ⟨htruth, hothers⟩ := exit_code_tells_truth (d := hinted) hi
  have hten := htruth.satisfiable.2
    ⟨single, ⟨hloads, hreports⟩, fun v => v == ⟨1⟩, by decide⟩
  refine ⟨hten, htruth.model single hload hten, ?_⟩
  exact hothers hinted [Utf8.encode "a.cnf"] ⟨⟨.ofText "a.cnf", none, {}, none⟩, none⟩
    (by decide +kernel) rfl hten

end Solve

end Polarity
