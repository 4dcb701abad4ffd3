import Mathlib.Data.List.Forall2
import Polarity.Proofs.Search.Coherence
import Polarity.Proofs.Search.Guided

/-!
# One search after the other

A model that a search finds stays assigned, and a search without a model takes back all that it
assigned. So on one solver, searches are independent of each other up to the first model. From then
on nothing is left to be decided, and a search only checks that model against its formula
(`Succession`).

**Theorem (`searches_succeed`).** Formulas of one size are searched one after the other, on a solver
in which nothing is assigned at first and which nobody stops. Up to the first model each answer is
right about its own formula. A later answer is that model if it satisfies the formula, and otherwise
that there is no model, which need not be right (`searches_not_independent`).
-/

namespace Polarity

variable {f g : Formula} {a : Assignment} {m : List Literal} {n : Nat} {o : Outcome}

/-! ## Answers -/

/-- The answer is right about the formula, whatever the search started from. -/
def Outcome.RightFor (f : Formula) : Outcome → Prop
  | .sat m => m.map (·.var) = (List.range f.vars).map Variable.mk ∧
      ∀ c ∈ f.clauses, ∃ l ∈ c, l ∈ m
  | .unsat => ∀ μ, ¬ f.SatisfiedBy μ
  | .unknown => False

/-- The answer that keeps to a model which is there already. -/
def Formula.answerBy (m : List Literal) (f : Formula) : Outcome :=
  if ∀ c ∈ f.clauses, ∃ l ∈ c, l ∈ m then .sat m else .unsat

/-- The answers of searches one after the other: right up to the first model, and from then on what
that model says. -/
inductive Succession : List Formula → List Outcome → Prop
  | nil : Succession [] []
  | unsat {f : Formula} {later : List Formula} {os : List Outcome}
      (right : Outcome.unsat.RightFor f) (rest : Succession later os) :
      Succession (f :: later) (.unsat :: os)
  | sat {f : Formula} {later : List Formula} {m : List Literal}
      (right : (Outcome.sat m).RightFor f) :
      Succession (f :: later) (.sat m :: later.map (·.answerBy m))

theorem Outcome.AnswersFor.rightFor (h : o.AnswersFor f a) (ha : a.Consistent)
    (hzero : a.assigned = 0) : o.RightFor f := by
  cases o with
  | sat m => exact ⟨h.1, h.2.2⟩
  | unsat => exact fun μ => h μ (ha.extendedBy_of_assigned_eq_zero hzero)
  | unknown => exact h

/-- Lists with one literal for each variable are the same if one has all literals of the other. -/
theorem eq_of_forall_mem {m m' : List Literal} (h : m.map (·.var) = (List.range n).map Variable.mk)
    (h' : m'.map (·.var) = (List.range n).map Variable.mk) (hmem : ∀ l ∈ m, l ∈ m') : m' = m := by
  have hlength : m'.length = m.length := by simpa using congrArg List.length (h'.trans h.symm)
  have hvar {k : List Literal} (hk : k.map (·.var) = (List.range n).map Variable.mk) (i : Nat)
      (hi : i < k.length) : k[i].var.index = i := by
    have hget := List.getElem_of_eq hk (i := i) (by simpa using hi)
    rw [List.getElem_map, List.getElem_map, List.getElem_range] at hget
    rw [hget]
  refine List.ext_getElem hlength fun i hi' hi => ?_
  obtain ⟨j, hj, hlit⟩ := List.getElem_of_mem (hmem m[i] (List.getElem_mem hi))
  obtain rfl : j = i := by rw [← hvar h' j hj, hlit, hvar h i hi]
  exact hlit

theorem Assignment.Consistent.exists_extendedBy (ha : a.Consistent) : ∃ μ, a.ExtendedBy μ :=
  ⟨_, Solver.extendedBy_proposal (s := { store := { assignment := a } }) ha⟩

/-- **Where all variables have values, an answer says whether these are a model.** -/
theorem Outcome.AnswersFor.eq_answerBy (h : o.AnswersFor f a) (ha : a.Consistent)
    (hvars : a.vars = f.vars) (hfull : a.firstUnassigned = none) : o = f.answerBy a.model := by
  unfold Formula.answerBy
  cases o with
  | sat m =>
    obtain ⟨hm, hkept, hsat⟩ := h
    have hmodel : a.model.map (·.var) = (List.range f.vars).map Variable.mk := by
      rw [Assignment.map_var_model, hvars]
    obtain rfl : m = a.model :=
      eq_of_forall_mem hmodel hm fun l hl => hkept l ((Assignment.mem_model_iff ha hfull).1 hl)
    rw [if_pos hsat]
  | unsat =>
    obtain ⟨μ, hμ⟩ := ha.exists_extendedBy
    refine (if_neg fun hsat => h μ hμ fun c hc => ?_).symm
    obtain ⟨l, hl, hlm⟩ := hsat c hc
    exact ⟨l, hl, hμ l ((Assignment.mem_model_iff ha hfull).1 hlm)⟩
  | unknown => exact h.elim

/-! ## Searches -/

namespace Solver

variable {s t : Solver} {fs : List Formula}

open Search

/-- A solver of so many variables that nobody stops, with any values and phases. -/
structure Idle (n : Nat) (s : Solver) : Prop where
  consistent : s.store.assignment.Consistent
  vars : s.vars = n
  phases : s.store.phases.Sized n
  flag : s.engine.terminated = false

/-- What a search that started from the assignment `a` leaves behind: an answer, and its model or
the values from before. -/
structure Leaves (f : Formula) (a : Assignment) (o : Outcome) (t : Solver) : Prop where
  answer : o.AnswersFor f a
  idle : t.Idle f.vars
  unsat : o = .unsat → t.store.assignment = a
  sat : ∀ m, o = .sat m →
    t.store.assignment.firstUnassigned = none ∧ t.store.assignment.model = m

theorem leaves_of_turn {s t : Search} (h : Turn f.clauses a s (some o) t) (hs : s.Grounded a)
    (hvars : a.vars = f.vars) (hcl : Covers a.vars f.clauses) (hforced : Forced f a s.trail)
    (hflag : s.solver.engine.terminated = false) : Leaves f a o t.solver := by
  have ht := h.grounded hs hcl
  refine ⟨h.answersFor hs hvars hcl hforced hflag, ?_, ?_, ?_⟩
  · exact ⟨ht.assignment_consistent, ht.vars_assignment.trans hvars, hvars ▸ ht.sized,
      h.terminated.trans hflag⟩
  · rintro rfl
    exact h.assignment_of_unsat
  · rintro m rfl
    cases h with
    | model _ _ _ hfull => exact ⟨hfull, rfl⟩

/-- **What a search leaves behind.** -/
theorem search_leaves (hf : f.WellFormed) (hs : s.Idle f.vars) :
    ∃ o t, search f s = .ok o t ∧ Leaves f s.store.assignment o t := by
  have hsized : s.SizedTo f := ⟨hs.consistent, hs.vars, hs.phases⟩
  have hcl := hsized.covers hf
  obtain ⟨o, t, hsearch, hleft⟩ := search_spec hf hsized
    (P := fun t => Forced f s.store.assignment t.trail ∧ t.solver.engine.terminated = false)
    (Q := fun o t => Leaves f s.store.assignment o t.solver)
    ⟨trivial, hs.flag⟩
    (fun {t r u} hg ⟨hforced, hflag⟩ hturn => by
      cases r with
      | none => exact ⟨hturn.forced hg hcl hforced, hturn.terminated.trans hflag⟩
      | some o => exact leaves_of_turn hturn hg hs.vars hcl hforced hflag)
  exact ⟨o, t.solver, hsearch, hleft⟩

/-- Search the formulas one after the other. -/
def searches : List Formula → Change Solver (List Outcome)
  | [] => return []
  | f :: later => do
    let o ← search f
    return o :: (← searches later)

/-- **Once a model is assigned, searches only check it.** -/
theorem searches_settled (hfs : ∀ f ∈ fs, f.WellFormed ∧ f.vars = n) (hs : s.Idle n)
    (hfull : s.store.assignment.firstUnassigned = none) :
    ∃ t, searches fs s = .ok (fs.map (·.answerBy s.store.assignment.model)) t := by
  induction fs generalizing s with
  | nil => exact ⟨s, rfl⟩
  | cons f later ih =>
    obtain ⟨⟨hf, rfl⟩, hlater⟩ := List.forall_mem_cons.1 hfs
    obtain ⟨o, t, ht, hanswer, hidle, hunsat, hsat⟩ := search_leaves hf hs
    have ho := hanswer.eq_answerBy hs.consistent hs.vars hfull
    -- The assignment is full before and after, with the same model.
    have hmodel : t.store.assignment.firstUnassigned = none ∧
        t.store.assignment.model = s.store.assignment.model := by
      unfold Formula.answerBy at ho
      split at ho
      · exact hsat _ ho
      · rw [hunsat ho]
        exact ⟨hfull, rfl⟩
    obtain ⟨u, hu⟩ := ih hlater hidle hmodel.1
    rw [hmodel.2] at hu
    refine ⟨u, ?_⟩
    simp [searches, ht, hu, ho]

/-- **Searches one after the other succeed**, on a solver in which nothing is assigned. -/
theorem searches_of_blank (hfs : ∀ f ∈ fs, f.WellFormed ∧ f.vars = n) (hs : s.Idle n)
    (hblank : s.store.assignment = .blank n) :
    ∃ os t, searches fs s = .ok os t ∧ Succession fs os := by
  induction fs generalizing s with
  | nil => exact ⟨[], s, rfl, .nil⟩
  | cons f later ih =>
    obtain ⟨⟨hf, rfl⟩, hlater⟩ := List.forall_mem_cons.1 hfs
    obtain ⟨o, t, ht, hanswer, hidle, hunsat, hsat⟩ := search_leaves hf hs
    have hright := hanswer.rightFor hs.consistent (by rw [hblank]; rfl)
    -- Without a model the next search starts from the same values, so induction goes on.
    cases o with
    | sat m =>
      obtain ⟨hfull, rfl⟩ := hsat m rfl
      obtain ⟨u, hu⟩ := searches_settled hlater hidle hfull
      exact ⟨_, u, by simp [searches, ht, hu], .sat hright⟩
    | unsat =>
      obtain ⟨os, u, hu, hos⟩ := ih hlater hidle ((hunsat rfl).trans hblank)
      exact ⟨_, u, by simp [searches, ht, hu], .unsat hright hos⟩
    | unknown => exact hright.elim

theorem idle_blank (options : Options) (n : Nat) : (blank options n).Idle n where
  consistent := .blank n
  vars := Assignment.vars_blank n
  phases := ⟨Array.size_replicate, Array.size_replicate, Array.size_replicate⟩
  flag := rfl

theorem idle_hinted (options : Options) {h : Hint} (hsize : h.size = f.vars) :
    (hinted options h).Idle f.vars :=
  have hsized := sizedTo_hinted options hsize
  ⟨hsized.consistent, hsized.vars, hsized.phases, rfl⟩

/-- **What searches one after the other answer**, on a fresh solver that was given its size, or on
any other one in which nothing is assigned and that nobody stops. -/
theorem searches_succeed (hfs : ∀ f ∈ fs, f.WellFormed ∧ f.vars = n) :
    (n ≤ Variable.limit → ∀ options, ∃ os t,
      (do resize n; searches fs : Change Solver (List Outcome)) (ofOptions options) = .ok os t ∧
        Succession fs os) ∧
    ∀ s : Solver, s.Idle n → s.store.assignment = .blank n →
      ∃ os t, searches fs s = .ok os t ∧ Succession fs os := by
  constructor
  · intro hn options
    obtain ⟨os, t, ht, hos⟩ := searches_of_blank hfs (idle_blank options n) rfl
    exact ⟨os, t, by simp [resize_ofOptions options hn, ht], hos⟩
  · intro s hs hblank
    exact searches_of_blank hfs hs hblank

/-- Two formulas over one variable: the first has no clauses, the second rules out the model that
the first search finds. -/
def reversal : List Formula := [⟨1, []⟩, ⟨1, [[⟨⟨0⟩, false⟩]]⟩]

theorem wellFormed_reversal : ∀ f ∈ reversal, f.WellFormed ∧ f.vars = 1 := by
  intro f hf
  rcases List.mem_pair.1 hf with rfl | rfl
  · exact ⟨⟨by decide, by decide⟩, rfl⟩
  · exact ⟨⟨by decide, by decide⟩, rfl⟩

theorem searches_succeed_reversal :
    ∃ os t, (do resize 1; searches reversal : Change Solver (List Outcome)) (ofOptions {}) =
      .ok os t ∧ Succession reversal os :=
  (searches_succeed wellFormed_reversal).1 (by decide) {}

/-- **Answers after the first model need not be right.** -/
theorem searches_not_independent :
    ¬ ∀ (options : Options) (n : Nat) (fs : List Formula), n ≤ Variable.limit →
      (∀ f ∈ fs, f.WellFormed ∧ f.vars = n) →
      ∃ os t, (do resize n; searches fs : Change Solver (List Outcome)) (ofOptions options) =
        .ok os t ∧ List.Forall₂ (fun f o => o.RightFor f) fs os := by
  intro h
  obtain ⟨os, t, hrun, hright⟩ := h {} 1 reversal (by decide) wellFormed_reversal
  have hanswers : (Change.carry (do resize 1; searches reversal : Change Solver (List Outcome))
      (ofOptions {})).result.toOption = some [.sat [⟨⟨0⟩, true⟩], .unsat] := by decide +kernel
  unfold Change.carry at hanswers
  rw [hrun] at hanswers
  obtain rfl : os = [.sat [⟨⟨0⟩, true⟩], .unsat] := Option.some.inj hanswers
  obtain - | ⟨-, hlater⟩ := hright
  obtain - | ⟨hsecond, -⟩ := hlater
  exact hsecond (fun _ => false) (by decide)

end Solver

end Polarity
