import Polarity.Proofs.Hint.Printing
import Polarity.Proofs.Json.Objects
import Polarity.Proofs.Prediction.Generation
import Polarity.Proofs.Search.Guided

/-!
# Predictions that steer a search

**Theorem (`predictions_steer_search`).** A model that is predicted is found without a conflict: the
hint that is generated for the predictions is loaded by a fresh solver, and the search that follows
answers with the model.

A prediction is a literal here, its variable with the predicted sign, and in a text it stands as a
JSON object on a line of its own. What is passed on from stage to stage is a partial valuation:

* the text is read as predictions that name these variables and phases (`Foretells`);
* no variable is predicted twice, so the last prediction of a variable is the only one, and the hint
  has its phase there and nothing elsewhere (`MadeOf.phases_eq`);
* the hint file is read back as the hint, and a fresh solver takes it with the initial phase for
  what it leaves open (`proposal_hinted`);
* a proposal that satisfies the formula is followed (`search_follows_proposal`).
-/

namespace Polarity

variable {l : Literal} {ls : List Literal} {p : Prediction} {ps : List Prediction}

/-! ## Literals as predictions -/

/-- The line of a list of predictions that predicts a literal. -/
def Literal.predictionLine (l : Literal) : String :=
  "\x7b\"index\": " ++ toString l.var.index ++ ", \"assignment\": " ++
    (if l.positive then "1" else "0") ++ "\x7d"

/-- The literal as a JSON object. -/
def Literal.fields (l : Literal) : List (String × Nat) :=
  [("index", l.var.index), ("assignment", if l.positive then 1 else 0)]

/-- Each variable as it is predicted, or else as the initial phase has it. -/
def Valuation.predicted (ls : List Literal) (initial : Phase) : Valuation := fun v =>
  match ls.find? (·.var = v) with
  | some l => l.positive
  | none => initial ≠ .negative

theorem Literal.toList_predictionLine (l : Literal) :
    l.predictionLine.toList = Json.objectText l.fields := by
  have hsign : (if l.positive then "1" else "0").toList =
      Nat.toDigits 10 (if l.positive then 1 else 0) := by cases l.positive <;> rfl
  simp [predictionLine, hsign, Json.objectText, fields, Json.fieldText]

theorem Literal.parse_predictionLine (hl : l.var.index ≤ Numeral.word) :
    Json.parse? (String.ofList l.predictionLine.toList) = some (Json.ofCounts l.fields) := by
  rw [toList_predictionLine]
  refine Json.parse_objectText ?_ ?_
  · simp only [fields, List.forall_mem_cons]
    exact ⟨by decide, by decide, nofun⟩
  · have hsign : (if l.positive then 1 else 0) ≤ Numeral.word := by
      cases l.positive <;> decide
    simpa [fields] using ⟨hl, hsign⟩

namespace Prediction

/-- The lines of the text that are not blank are these predictions. -/
def Lists (text : String) (ls : List Literal) : Prop :=
  (Text.lines text.toList).filter (fun line => !(Text.trim line).isEmpty) =
    ls.map fun l => l.predictionLine.toList

instance (text : String) (ls : List Literal) : Decidable (Lists text ls) :=
  inferInstanceAs (Decidable (_ = _))

/-- The text with a line for each prediction. -/
def listing (ls : List Literal) : String :=
  String.join (ls.map fun l => l.predictionLine ++ "\n")

theorem isLine_predictionLine (l : Literal) : Text.IsLine l.predictionLine.toList where
  not_newline hc := by
    have hdigits (n : Nat) : '\n' ∉ Nat.toDigits 10 n := fun hmem =>
      absurd ((Numeral.spells_toDigits n).isDigit _ hmem) (by decide)
    simp [Literal.toList_predictionLine, Json.objectText, Literal.fields, Json.fieldText, hdigits]
      at hc
  not_return := by
    rw [Literal.toList_predictionLine, Json.getLast?_objectText]
    decide

theorem trim_predictionLine (l : Literal) :
    Text.trim l.predictionLine.toList = l.predictionLine.toList := by
  rw [Literal.toList_predictionLine]
  refine Text.trim_eq_self (fun c hc => ?_) fun c hc => ?_
  · obtain rfl := Option.some.inj ((Json.head?_objectText _).symm.trans hc)
    decide
  · obtain rfl := Option.some.inj ((Json.getLast?_objectText _).symm.trans hc)
    decide

/-- Predictions can be listed in any order. -/
theorem lists_listing (ls : List Literal) : Lists (listing ls) ls := by
  have htext : (listing ls).toList =
      (ls.map fun l => l.predictionLine.toList).flatMap (· ++ ['\n']) := by
    simp [listing, List.flatMap_map]
  have hlines : ∀ line ∈ ls.map fun l => l.predictionLine.toList, Text.IsLine line := by
    simp only [List.forall_mem_map]
    exact fun l _ => isLine_predictionLine l
  rw [Lists, htext, Text.lines_ended hlines, List.filter_eq_self]
  simp only [List.forall_mem_map]
  intro l _
  rw [trim_predictionLine, Literal.toList_predictionLine]
  rfl

/-- The prediction names the variable and the sign of the literal. -/
structure Foretells (p : Prediction) (l : Literal) : Prop where
  index : p.index? = some l.var.index
  phase : p.phase? = some (Phase.ofBool l.positive)

theorem foretells_of_value (h : p.value = Json.ofCounts l.fields) : Foretells p l where
  index := by
    rw [index?, h]
    rfl
  phase := by
    rw [phase?, h]
    obtain ⟨v, positive⟩ := l
    cases positive <;> rfl

/-- **A list of literals is read as predictions that foretell them.** -/
theorem parse_of_lists {text : String} (hword : ∀ l ∈ ls, l.var.index ≤ Numeral.word)
    (htext : Lists text ls) :
    ∃ ps, parse text = .ok ps ∧ List.Forall₂ Foretells ps ls := by
  let value (line : List Char) : Json := (Json.parse? (String.ofList line)).getD .null
  have hlines : (written text).map (·.2) = ls.map fun l => l.predictionLine.toList :=
    (map_snd_written text).trans htext
  have hvalue : ∀ l ∈ ls, Json.parse? (String.ofList l.predictionLine.toList) =
      some (Json.ofCounts l.fields) := fun l hl => Literal.parse_predictionLine (hword l hl)
  have hdecode : ∀ n ∈ written text, Json.parse? (String.ofList n.2) = some (value n.2) := by
    intro n hn
    have hmem : n.2 ∈ ls.map fun l => l.predictionLine.toList := hlines ▸ List.mem_map_of_mem hn
    obtain ⟨l, hl, hline⟩ := List.mem_map.1 hmem
    simp only [value, ← hline, hvalue l hl, Option.getD_some]
  refine ⟨_, parseWith_of_decode hdecode, ?_⟩
  have hvalues : ((written text).map (·.2)).map value = ls.map fun l => Json.ofCounts l.fields := by
    rw [hlines, List.map_map]
    refine List.map_congr_left fun l hl => ?_
    simp only [value, Function.comp_apply, hvalue l hl, Option.getD_some]
  rw [List.map_map, ← List.forall₂_eq_eq_eq, List.forall₂_map_left_iff,
    List.forall₂_map_right_iff] at hvalues
  rw [List.forall₂_map_left_iff]
  exact hvalues.imp fun n l h => foretells_of_value h

/-! ## What is generated -/

theorem filterMap_index? (h : List.Forall₂ Foretells ps ls) :
    ps.filterMap index? = ls.map (·.var.index) := by
  induction h with
  | nil => rfl
  | cons hp _ ih => simp [hp.index, ih]

theorem filterMap_proposal? (h : List.Forall₂ Foretells ps ls) (v : Variable) :
    ps.filterMap (proposal? v.index) =
      (ls.filter (·.var = v)).map fun l => Phase.ofBool l.positive := by
  induction h with
  | nil => rfl
  | @cons p l _ _ hp _ ih =>
    have hiff : l.var.index = v.index ↔ l.var = v :=
      ⟨fun h => congrArg Variable.mk h, fun h => congrArg Variable.index h⟩
    by_cases hv : l.var = v
    · simp [proposal?, hp.index, hp.phase, hv, ih]
    · simp [proposal?, hp.index, hiff, hv, ih]

theorem countP_not_isUsable (h : List.Forall₂ Foretells ps ls) :
    ps.countP (fun p => !p.isUsable) = 0 := by
  induction h with
  | nil => rfl
  | cons hp _ ih =>
    rw [List.countP_cons, ih]
    simp [isUsable, hp.index, hp.phase]

end Prediction

/-- Of literals of different variables one at most is of a given variable. -/
theorem Literal.getLast?_filter (hnodup : (ls.map (·.var)).Nodup) (v : Variable) :
    (ls.filter (·.var = v)).getLast? = ls.find? (·.var = v) := by
  induction ls with
  | nil => rfl
  | cons l ls ih =>
    obtain ⟨hl, hls⟩ := List.nodup_cons.1 hnodup
    by_cases hv : l.var = v
    · have hnone : ls.filter (·.var = v) = [] := by
        rw [List.filter_eq_nil_iff]
        intro k hk hkv
        have hkv' : k.var = l.var := (of_decide_eq_true hkv).trans hv.symm
        exact hl (List.mem_map.2 ⟨k, hk, hkv'⟩)
      simp [hv, hnone]
    · simp [hv, ih hls]

/-- **The hint has the predicted phases and no others.** -/
theorem Generated.MadeOf.phases_eq {g : Generated} {vars : Nat} (hg : g.MadeOf ps vars)
    (hps : List.Forall₂ Prediction.Foretells ps ls) (hnodup : (ls.map (·.var)).Nodup)
    {v : Variable} (hv : v.index < vars) :
    g.phases[v.index]? =
      some (((ls.find? (·.var = v)).map fun l => Phase.ofBool l.positive).getD .unset) := by
  rw [hg.phases v.index hv, Prediction.filterMap_proposal? hps, List.getLast?_map,
    Literal.getLast?_filter hnodup]

/-- Literals of different variables up to the last one are a hint for all variables. -/
theorem Generated.ofPredictions_foretold {vars : Nat} (hvars : vars < Memory.limit)
    (hps : List.Forall₂ Prediction.Foretells ps ls) (hlt : ∀ l ∈ ls, l.var.index < vars)
    (hlast : ∃ l ∈ ls, l.var.index + 1 = vars) :
    ∃ g, ofPredictions ps none = .ok g ∧ g.MadeOf ps vars := by
  obtain ⟨last, hmem, rfl⟩ := hlast
  have hmax : (ps.filterMap Prediction.index?).max? = some last.var.index := by
    rw [Prediction.filterMap_index? hps, List.max?_eq_some_iff]
    refine ⟨List.mem_map_of_mem hmem, ?_⟩
    simp only [List.forall_mem_map]
    exact fun l hl => Nat.le_of_lt_succ (hlt l hl)
  exact ofPredictions_eq_ok hmax hvars rfl

/-! ## What the solver makes of it -/

theorem Hint.completed_eq_predicted {g : Generated} {path : Path} {vars : Nat} {v : Variable}
    (hg : g.MadeOf ps vars) (hps : List.Forall₂ Prediction.Foretells ps ls)
    (hnodup : (ls.map (·.var)).Nodup) (initial : Phase) (hv : v.index < vars) :
    Hint.completed ⟨path, g.phases.toList⟩ initial v = Valuation.predicted ls initial v := by
  have hphase := hg.phases_eq hps hnodup hv
  rw [← Array.getElem?_toList] at hphase
  rw [Hint.completed, hphase, Valuation.predicted]
  cases ls.find? (·.var = v) with
  | none => rfl
  | some l => cases hl : l.positive <;> simp [hl, Phase.ofBool, Phase.overlay, Phase.isSet]

/-- A fresh solver takes a hint file of its size. -/
theorem Solver.load_fileText (options : Options) {read : Reader} {path : Path}
    {phases : List Phase} (hsize : phases.length ≤ Variable.limit)
    (hread : read path = .ok (Utf8.encode (Hint.fileText phases))) :
    (do
      resize phases.length
      setInitPhaseFile path
      loadInitialPhases read : Change Solver (Option Hint.Summary)) (ofOptions options) =
      .ok (some (Hint.summary ⟨path, phases⟩)) (hinted options ⟨path, phases⟩) := by
  have hresize := resize_ofOptions options hsize
  have htext : read.text path = .ok (Hint.fileText phases) := by
    simp [Reader.text, hread, Utf8.decode_encode, bind, Except.bind, pure, Except.pure]
  have hload : Hint.load read path phases.length = .ok ⟨path, phases⟩ := by
    rw [Hint.load, htext]
    exact Hint.parse_fileText path phases
  have hvars : (blank options phases.length).vars = phases.length := Assignment.vars_blank _
  have hinit : initPhases ⟨path, phases⟩ (blank options phases.length) =
      .ok () (hinted options ⟨path, phases⟩) := initPhases_blank options ⟨path, phases⟩
  -- The name of the file is used up before the file is read.
  have hfresh : ({ blank options phases.length with initPhaseFile := none } : Solver) =
      blank options phases.length := rfl
  simp [hresize, setInitPhaseFile, loadInitialPhases, hfresh, hvars, hload, Except.mapError, hinit]

/-- **Ranked predictions steer the search.** Predictions of different variables, the last one among
them, can be listed in any order. Each text that lists them generates a hint for all variables with
nothing skipped. A fresh solver that uses target phases takes the generated hint file. If what is
predicted satisfies the formula, together with the initial phase for the other variables, the search
that follows answers with just this valuation and meets no conflict. -/
theorem predictions_steer_search {f : Formula} (hf : f.WellFormed) {ls : List Literal}
    (hnodup : (ls.map (·.var)).Nodup) (hlt : ∀ l ∈ ls, l.var.index < f.vars)
    (hlast : ∃ l ∈ ls, l.var.index + 1 = f.vars) :
    Prediction.Lists (Prediction.listing ls) ls ∧
    ∀ text, Prediction.Lists text ls →
      ∃ predictions g, Prediction.parse text = .ok predictions ∧
        Generated.ofPredictions predictions none = .ok g ∧ g.size = f.vars ∧ g.skipped = 0 ∧
        ∀ (options : Options) (read : Reader) (path : Path), options.target = true →
          read path = .ok (Utf8.encode g.text) →
          ∃ s, (do
              Solver.resize f.vars
              Solver.setInitPhaseFile path
              Solver.loadInitialPhases read : Change Solver (Option Hint.Summary))
                (Solver.ofOptions options) =
              .ok (some (Hint.summary ⟨path, g.phases.toList⟩)) s ∧
            (f.SatisfiedBy (.predicted ls options.initialPhase) →
              ∃ t, Solver.search f s =
                  .ok (.sat ((Valuation.predicted ls options.initialPhase).literals f.vars)) t ∧
                t.engine.statistics.conflicts = 0) := by
  refine ⟨Prediction.lists_listing ls, fun text htext => ?_⟩
  have hlimit := hf.vars_le
  have hword : ∀ l ∈ ls, l.var.index ≤ Numeral.word := by
    intro l hl
    have hl := hlt l hl
    unfold Variable.limit at hlimit
    unfold Numeral.word
    omega
  have hroom : f.vars < Memory.limit := by
    have := Memory.lt_limit hlimit
    omega
  obtain ⟨ps, hparse, hps⟩ := Prediction.parse_of_lists hword htext
  obtain ⟨g, hgenerate, hg⟩ := Generated.ofPredictions_foretold hroom hps hlt hlast
  refine ⟨ps, g, hparse, hgenerate, hg.size, ?_, fun options read path htarget hread => ?_⟩
  · rw [hg.skipped, Prediction.countP_not_isUsable hps]
  have hsize : g.phases.toList.length = f.vars := Array.length_toList.trans hg.size
  have hload := Solver.load_fileText options (hsize.trans_le hlimit) hread
  rw [hsize] at hload
  refine ⟨_, hload, fun hμ => ?_⟩
  have hagree (v : Variable) (hv : v.index < f.vars) :
      (Solver.hinted options ⟨path, g.phases.toList⟩).proposal v =
        Valuation.predicted ls options.initialPhase v := by
    rw [Solver.proposal_hinted htarget]
    exact Hint.completed_eq_predicted hg hps hnodup options.initialPhase hv
  obtain ⟨t, hsearch, hconflicts, -⟩ := Solver.search_follows_proposal hf
    (Solver.sizedTo_hinted options (h := ⟨path, g.phases.toList⟩) hsize) rfl
    ((Formula.satisfiedBy_congr hf hagree).2 hμ)
  rw [Valuation.literals_congr hagree] at hsearch
  exact ⟨t, hsearch, hconflicts⟩

/-- Two clauses with several models. -/
def Formula.selection : Formula where
  vars := 3
  clauses := [[⟨⟨0⟩, true⟩, ⟨⟨2⟩, true⟩], [⟨⟨1⟩, false⟩, ⟨⟨2⟩, true⟩]]

/-- Two predictions, the larger variable first, with a blank line before and between them. -/
theorem predictions_steer_search_selection :
    let text := "\n\x7b\"index\": 2, \"assignment\": 1\x7d\r\n" ++
      " \n\x7b\"index\": 0, \"assignment\": 0\x7d"
    ∃ predictions g, Prediction.parse text = .ok predictions ∧
      Generated.ofPredictions predictions none = .ok g ∧ g.text = "0 d 1" ∧
      ∃ s t, (do
          Solver.resize 3
          Solver.setInitPhaseFile Store.inlineHint
          Solver.loadInitialPhases fun _ => .ok (Utf8.encode "0 d 1") :
            Change Solver (Option Hint.Summary))
            (Solver.ofOptions { initialPhase := .negative }) =
          .ok (some (Hint.summary ⟨Store.inlineHint, [.negative, .unset, .positive]⟩)) s ∧
        Solver.search .selection s =
          .ok (.sat [⟨⟨0⟩, false⟩, ⟨⟨1⟩, false⟩, ⟨⟨2⟩, true⟩]) t ∧
        t.engine.statistics.conflicts = 0 := by
  intro text
  have hf : Formula.selection.WellFormed := ⟨by decide, by decide⟩
  have hlists : Prediction.Lists text [⟨⟨2⟩, true⟩, ⟨⟨0⟩, false⟩] := by decide +kernel
  have hnodup : ([⟨⟨2⟩, true⟩, ⟨⟨0⟩, false⟩].map Literal.var).Nodup := by decide
  obtain ⟨predictions, g, hparse, hgenerate, -, -, hsolve⟩ :=
    (predictions_steer_search hf hnodup (by decide) (by decide)).2 text hlists
  have hrun : ((Prediction.parse text).toOption.bind fun predictions =>
      (Generated.ofPredictions predictions none).toOption) =
        some ⟨#[.negative, .unset, .positive], 0⟩ := by decide +kernel
  obtain rfl : g = ⟨#[.negative, .unset, .positive], 0⟩ := by
    simpa [hparse, hgenerate, Except.toOption] using hrun
  have htext : (Generated.mk #[.negative, .unset, .positive] 0).text = "0 d 1" := by decide +kernel
  obtain ⟨s, hload, hsearch⟩ := hsolve { initialPhase := .negative }
    (fun _ => .ok (Utf8.encode "0 d 1")) Store.inlineHint rfl (by rw [htext])
  obtain ⟨t, ht, hconflicts⟩ := hsearch (by decide +kernel)
  exact ⟨predictions, _, hparse, hgenerate, htext, s, t, hload, ht, hconflicts⟩

end Polarity
