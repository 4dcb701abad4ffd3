import Polarity.Proofs.Search.Entailment
import Polarity.Proofs.Search.TreeBound

/-!
# What a search answers

**Models.** When propagation is quiet and no variable is free, each clause has a true literal, and
the model lists the true literals in the order of the variables.

**Verdicts** (`Outcome.AnswersFor`). A search without a stop request ends with a model that keeps
the values from before, or with the certainty that there is none.
-/

namespace Polarity

variable {f : Formula} {a : Assignment} {clauses : List Clause} {l : Literal} {μ : Valuation}

/-! ## Models -/

namespace Assignment

theorem Consistent.varValue_of_positive (ha : a.Consistent) (h : a.value l = .ok .positive) :
    a.varValue l.var = .ok (Phase.ofBool l.positive) := by
  obtain ⟨v, p⟩ := l
  cases p with
  | true => exact h
  | false => exact ha.opposite _ _ h

/-- **The model of a full assignment consists of its true literals.** -/
theorem mem_model_iff (ha : a.Consistent) (hfull : a.firstUnassigned = none) :
    l ∈ a.model ↔ a.value l = .ok .positive := by
  unfold model
  rw [List.mem_mapIdx]
  constructor
  · rintro ⟨i, hi, rfl⟩
    have hv : a.value ⟨⟨i⟩, true⟩ = .ok a.varValues[i] :=
      (getElem?_varValues_eq_some_iff ha).1 (List.getElem?_eq_getElem hi)
    have hset := ha.isSet_of_firstUnassigned hfull hv
    generalize a.varValues[i] = p at hv hset ⊢
    cases p with
    | positive => exact hv
    | negative => exact ha.opposite _ _ hv
    | unset => simp at hset
  · intro h
    have hv := (getElem?_varValues_eq_some_iff ha).2 (ha.varValue_of_positive h)
    obtain ⟨hi, hp⟩ := List.getElem?_eq_some_iff.1 hv
    refine ⟨l.var.index, hi, ?_⟩
    rw [hp]
    obtain ⟨v, p⟩ := l
    cases p <;> rfl

/-- A model has one literal for each variable, in the order of the variables. -/
theorem map_var_model : a.model.map (·.var) = (List.range a.vars).map Variable.mk := by
  refine List.ext_getElem (by simp [model]) fun i _ _ => ?_
  simp [model]

theorem Consistent.extendedBy_of_assigned_eq_zero (ha : a.Consistent) (h : a.assigned = 0) :
    a.ExtendedBy μ := by
  intro l hl
  have hv := (getElem?_varValues_eq_some_iff ha).2 (ha.varValue_of_positive hl)
  rw [ha.counted, List.countP_eq_zero] at h
  have hunset := h _ (List.mem_of_getElem? hv)
  rw [Phase.isSet_ofBool] at hunset
  exact absurd rfl hunset

end Assignment

/-- Where propagation is quiet and no variable is free, each clause has a true literal. -/
theorem Search.exists_positive_of_quiet (ha : a.Consistent) (hcl : Search.Covers a.vars clauses)
    (hquiet : Search.Quiet clauses a) (hfull : a.firstUnassigned = none) :
    ∀ c ∈ clauses, ∃ l ∈ c, a.value l = .ok .positive := by
  intro c hc
  rcases hquiet c hc with h | h
  · exact Clause.describes_of_status ha (hcl c hc) h
  · obtain ⟨-, k, -, -, hk, -⟩ := Clause.describes_of_status ha (hcl c hc) h
    exact absurd (ha.isSet_of_firstUnassigned hfull hk) (by decide)

/-! ## Verdicts -/

/-- What an answer has to say about a formula and the assignment from which a search started: a
model has one literal for each variable in their order, among them all that were true before, and a
literal of each clause; and if there is said to be none, then no valuation that extends the
assignment satisfies the formula. -/
def Outcome.AnswersFor (f : Formula) (a : Assignment) : Outcome → Prop
  | .sat m => m.map (·.var) = (List.range f.vars).map Variable.mk ∧
      (∀ l, a.value l = .ok .positive → l ∈ m) ∧ ∀ c ∈ f.clauses, ∃ l ∈ c, l ∈ m
  | .unsat => ∀ μ, a.ExtendedBy μ → ¬ f.SatisfiedBy μ
  | .unknown => False

namespace Search

variable {s t : Search} {o : Outcome}

/-- **The last round answers for the formula.** -/
theorem Turn.answersFor (h : Turn f.clauses a s (some o) t) (hs : s.Grounded a)
    (hvars : a.vars = f.vars) (hcl : Covers a.vars f.clauses) (hf : Forced f a s.trail)
    (hflag : s.solver.engine.terminated = false) : o.AnswersFor f a := by
  cases o with
  | unsat => exact fun μ he => h.not_satisfiedBy hs hcl hf he
  | unknown =>
    cases h with
    | stopped flag => simp [hflag] at flag
  | sat m =>
    have hg := h.grounded hs hcl
    cases h with
    | model _ hdraws hquiet hfull =>
      have ha := hg.assignment_consistent
      have hcl' : Covers t.assignment.vars f.clauses := hg.vars_assignment ▸ hcl
      refine ⟨?_, fun l hl => ?_, fun c hc => ?_⟩
      · rw [Assignment.map_var_model, hg.vars_assignment, hvars]
      · rw [Assignment.mem_model_iff ha hfull, hg.assignment]
        exact (hg.fits.value_eq_positive_iff hg.consistent).2 (Or.inl hl)
      · obtain ⟨l, hl, hp⟩ := exists_positive_of_quiet ha hcl' hquiet hfull c hc
        exact ⟨l, hl, (Assignment.mem_model_iff ha hfull).2 hp⟩

end Search

open Search

variable {s : Solver}

namespace Solver

/-- **Verdicts are sound and complete.** A search that nobody stops has an answer, and the answer is
right about the formula and the values from before. If there were none and no model is found, the
formula has none. -/
theorem search_answers (hf : f.WellFormed) (hs : s.SizedTo f)
    (hflag : s.engine.terminated = false) :
    ∃ o t, search f s = .ok o t ∧ o.AnswersFor f s.store.assignment ∧
      (o = .unsat → s.store.assignment.assigned = 0 → ∀ μ, ¬ f.SatisfiedBy μ) := by
  obtain ⟨o, t, hsearch, hanswer⟩ := search_spec hf hs
    (P := fun t => Forced f s.store.assignment t.trail ∧ t.solver.engine.terminated = false)
    (Q := fun o _ => o.AnswersFor f s.store.assignment)
    ⟨trivial, hflag⟩
    (fun {t r u} hg ⟨hforced, hflag⟩ hturn => by
      have hcl := hs.covers hf
      cases r with
      | none => exact ⟨hturn.forced hg hcl hforced, hturn.terminated.trans hflag⟩
      | some o => exact hturn.answersFor hg hs.vars hcl hforced hflag)
  refine ⟨o, t.solver, hsearch, hanswer, ?_⟩
  rintro rfl hzero μ
  exact hanswer μ (hs.consistent.extendedBy_of_assigned_eq_zero hzero)

theorem search_answers_refusal :
    ∃ o t, search .refusal (blank {} 2) = .ok o t ∧ o.AnswersFor .refusal (.blank 2) := by
  obtain ⟨o, t, hsearch, hanswer, -⟩ :=
    search_answers Formula.wellFormed_refusal (sizedTo_blank {} .refusal) rfl
  exact ⟨o, t, hsearch, hanswer⟩

end Solver

end Polarity
