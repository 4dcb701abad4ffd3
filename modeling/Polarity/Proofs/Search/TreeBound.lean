import Polarity.Proofs.Search.Rounds

/-!
# The tree that a search walks

A search over `n` free variables walks a binary tree whose inner nodes are its decisions and whose
leaves are its conflicts.

**What is left of the tree** (`leaves`). A trail of length `k` has at most `2 ^ (n - k)` leaves
below it, and each open decision at height `k` has kept back `2 ^ (n - k - 1)` leaves for its
negation. A unit conclusion only gives leaves away, a decision halves those at hand and keeps the other half
back, and a flip gives up the leaf that was refuted, so that conflicts and leaves together never
grow beyond `2 ^ n`.

**The accounts** (`Balanced`). Along a run each decision is refuted by a conflict or still open, and
each round makes a decision or meets a conflict. From these three facts all bounds follow.

**Counting.** The counters of a solver are words and can come round. `tally` adds up, as a number,
what each round of a run adds to a counter.
-/

namespace Polarity

namespace Search

variable {a : Assignment} {clauses : List Clause} {s t u : Search} {r : Option Outcome} {k n : Nat}
  {l : Literal} {gone earlier new trail : List Entry} {counter : Statistics → UInt64}

/-! ## Leaves -/

/-- The number of decisions whose negations are still to be tried. -/
def openDecisions (trail : List Entry) : Nat := trail.countP fun e => e.reason = .decided

/-- The leaves below the negations that are still to be tried. -/
def untried (n : Nat) : List Entry → Nat
  | [] => 0
  | e :: earlier =>
    (if e.reason = .decided then 2 ^ (n - (earlier.length + 1)) else 0) + untried n earlier

/-- The leaves that a search over `n` variables may still come to. -/
def leaves (n : Nat) (trail : List Entry) : Nat := 2 ^ (n - trail.length) + untried n trail

theorem untried_append_le : untried n earlier ≤ untried n (gone ++ earlier) := by
  induction gone with
  | nil => exact Nat.le_refl _
  | cons e gone ih => exact Nat.le_trans ih (Nat.le_add_left _ _)

theorem untried_append (h : Closed new) : untried n (new ++ trail) = untried n trail := by
  induction new with
  | nil => rfl
  | cons e new ih =>
    rw [List.cons_append, untried, if_neg (h e List.mem_cons_self), Nat.zero_add]
    exact ih fun d hd => h d (List.mem_cons_of_mem e hd)

theorem openDecisions_append (h : Closed new) :
    openDecisions (new ++ trail) = openDecisions trail := by
  have hnew : openDecisions new = 0 := by
    simpa [openDecisions, List.countP_eq_zero, Closed] using h
  unfold openDecisions at *
  rw [List.countP_append, hnew, Nat.zero_add]

theorem openDecisions_of_closed (h : Closed trail) : openDecisions trail = 0 := by
  rw [← List.append_nil trail, openDecisions_append h]
  rfl

/-- Unit conclusions give leaves away. -/
theorem leaves_append_le (h : Closed new) : leaves n (new ++ trail) ≤ leaves n trail := by
  unfold leaves
  rw [untried_append h]
  refine Nat.add_le_add_right (Nat.pow_le_pow_right (by decide) ?_) _
  rw [List.length_append]
  omega

/-- A decision halves the leaves at hand and keeps the other half back. -/
theorem leaves_decided (h : trail.length < n) :
    leaves n (⟨l, .decided⟩ :: trail) = leaves n trail := by
  have hpow : 2 ^ (n - trail.length) =
      2 ^ (n - (trail.length + 1)) + 2 ^ (n - (trail.length + 1)) := by
    rw [← Nat.two_mul, ← Nat.pow_succ']
    congr 1
    omega
  unfold leaves
  rw [untried, if_pos rfl, List.length_cons, hpow, Nat.add_assoc]

/-- A flip gives up at least one leaf. -/
theorem leaves_flipped :
    leaves n (⟨-l, .flipped⟩ :: earlier) < leaves n (gone ++ ⟨l, .decided⟩ :: earlier) := by
  have hkept : untried n (⟨l, .decided⟩ :: earlier) ≤
      untried n (gone ++ ⟨l, .decided⟩ :: earlier) := untried_append_le
  have hpos : 0 < 2 ^ (n - (gone ++ ⟨l, .decided⟩ :: earlier : List Entry).length) :=
    Nat.two_pow_pos _
  simp only [untried, if_true] at hkept
  simp only [leaves, untried, List.length_cons, reduceCtorEq, if_false, Nat.zero_add]
  omega

/-- Each open decision keeps a leaf back, besides the one at hand. -/
theorem openDecisions_lt_leaves : openDecisions trail < leaves n trail := by
  have hopen : openDecisions trail ≤ untried n trail := by
    induction trail with
    | nil => exact Nat.le_refl _
    | cons e earlier ih =>
      have hpos := Nat.two_pow_pos (n - (earlier.length + 1))
      unfold openDecisions at *
      rw [List.countP_cons, untried]
      by_cases he : e.reason = .decided
      · simp only [he, decide_true, if_true]
        omega
      · simp only [he, decide_false, Bool.false_eq_true, if_false]
        omega
  have hpos := Nat.two_pow_pos (n - trail.length)
  unfold leaves
  omega

/-! ## Counting -/

/-- What one round has added to a counter. -/
def raised (counter : Statistics → UInt64) (s t : Search) : Nat :=
  (counter t.statistics - counter s.statistics).toNat

/-- What rounds add to a counter, one after the other. -/
def tally (counter : Statistics → UInt64) (clauses : List Clause) : Nat → Search → Nat
  | 0, _ => 0
  | n + 1, s =>
    match round clauses s with
    | .ok none t => raised counter s t + tally counter clauses n t
    | .ok (some _) t => raised counter s t
    | .error _ _ => 0

theorem tally_succ (h : iterate clauses n s = .ok none t) (hround : round clauses t = .ok r u) :
    tally counter clauses (n + 1) s = tally counter clauses n s + raised counter t u := by
  induction n generalizing s with
  | zero =>
    obtain rfl : s = t := by simpa [iterate] using h
    cases r <;> simp [tally, hround]
  | succ n ih =>
    simp only [iterate, Change.bind_run] at h
    rw [tally, tally]
    cases hs : round clauses s with
    | error e v => simp [hs] at h
    | ok q v => cases q with
      | some o => simp [hs] at h
      | none =>
        simp only [hs] at h ⊢
        rw [ih h, Nat.add_assoc]

/-- A counter is what it was, with the tally added in its own arithmetic. -/
theorem counter_eq_add_tally (counter : Statistics → UInt64) (h : iterate clauses n s = .ok r t) :
    counter t.statistics = counter s.statistics + UInt64.ofNat (tally counter clauses n s) := by
  induction n generalizing s with
  | zero =>
    obtain ⟨-, rfl⟩ : r = none ∧ s = t := by simpa [iterate, eq_comm] using h
    simp [tally]
  | succ n ih =>
    simp only [iterate, Change.bind_run] at h
    rw [tally]
    cases hs : round clauses s with
    | error e v => simp [hs] at h
    | ok q v =>
      have hv : counter v.statistics =
          counter s.statistics + UInt64.ofNat (raised counter s v) := by
        rw [raised, UInt64.ofNat_toNat, UInt64.add_comm, UInt64.sub_add_cancel]
      cases q with
      | some o =>
        obtain ⟨-, rfl⟩ : r = some o ∧ v = t := by simpa [hs, eq_comm] using h
        exact hv
      | none =>
        simp only [hs] at h ⊢
        rw [ih h, hv, UInt64.ofNat_add, UInt64.add_assoc]

theorem raised_of_eq (h : counter t.statistics = counter s.statistics) :
    raised counter s t = 0 := by
  simp [raised, h]

theorem raised_of_eq_add (h : counter t.statistics = counter s.statistics + UInt64.ofNat n)
    (hn : n < 2 ^ 64) : raised counter s t = n := by
  rw [raised, h, UInt64.add_comm, UInt64.add_sub_cancel]
  exact UInt64.toNat_ofNat_of_lt' hn

theorem raised_of_eq_add_one (h : counter t.statistics = counter s.statistics + 1) :
    raised counter s t = 1 :=
  raised_of_eq_add h (by decide)

/-! ## The accounts -/

/-- Where a run stands after `k` rounds without a result. -/
structure Balanced (n k decisions conflicts : Nat) (trail : List Entry) : Prop where
  rounds : decisions + conflicts = k
  refuted : conflicts + openDecisions trail = decisions
  leaves : conflicts + leaves n trail ≤ 2 ^ n

/-- What a search over `n` variables has counted in the end. -/
structure TreeCounts (n decisions conflicts : Nat) (o : Outcome) (trail : List Entry) : Prop where
  decisions_le : decisions ≤ 2 ^ n - 1
  conflicts_le : conflicts ≤ 2 ^ n
  unsat : o = .unsat → conflicts = decisions + 1
  sat : ∀ m, o = .sat m → conflicts + openDecisions trail = decisions ∧ conflicts ≤ decisions

variable {d c : Nat} {o : Outcome}

namespace Balanced

theorem start (n : Nat) : Balanced n 0 0 0 [] := ⟨rfl, rfl, by simp [Search.leaves, untried]⟩

theorem drawn (h : Balanced n k d c trail) (hnew : Closed new) :
    Balanced n k d c (new ++ trail) where
  rounds := h.rounds
  refuted := by rw [openDecisions_append hnew, h.refuted]
  leaves := Nat.le_trans (Nat.add_le_add_left (leaves_append_le hnew) c) h.leaves

theorem decided (h : Balanced n k d c trail) (hlt : trail.length < n) :
    Balanced n (k + 1) (d + 1) c (⟨l, .decided⟩ :: trail) where
  rounds := by rw [← h.rounds, Nat.add_right_comm]
  refuted := by
    have := h.refuted
    simp only [openDecisions, List.countP_cons, decide_true, if_true] at this ⊢
    omega
  leaves := by
    rw [leaves_decided hlt]
    exact h.leaves

theorem flipped (h : Balanced n k d c (gone ++ ⟨l, .decided⟩ :: earlier)) (hg : Closed gone) :
    Balanced n (k + 1) d (c + 1) (⟨-l, .flipped⟩ :: earlier) where
  rounds := by rw [← h.rounds, Nat.add_assoc]
  refuted := by
    have := h.refuted
    rw [openDecisions_append hg] at this
    simp only [openDecisions, List.countP_cons, decide_true, if_true, reduceCtorEq, decide_false,
      Bool.false_eq_true, if_false] at this ⊢
    omega
  leaves := by
    have hflip : Search.leaves n (⟨-l, .flipped⟩ :: earlier) <
        Search.leaves n (gone ++ ⟨l, .decided⟩ :: earlier) := leaves_flipped
    have := h.leaves
    omega

/-- There is always a leaf that no conflict has reached. -/
theorem decisions_lt (h : Balanced n k d c trail) : d < 2 ^ n := by
  have hopen : openDecisions trail < Search.leaves n trail := openDecisions_lt_leaves
  have hrefuted := h.refuted
  have hleaves := h.leaves
  omega

/-- Rounds without a result are fewer than the nodes of the tree. -/
theorem rounds_lt (h : Balanced n k d c trail) : k + 1 < 2 ^ (n + 1) := by
  have hlt := h.decisions_lt
  have hrounds := h.rounds
  have hrefuted := h.refuted
  rw [Nat.pow_succ]
  omega

end Balanced

theorem Draws.balanced (hd : Draws clauses s t) (h : Balanced n k d c s.trail) :
    Balanced n k d c t.trail := by
  obtain ⟨new, hnew, himplied, -⟩ := hd.kept.implied
  rw [hnew]
  exact h.drawn fun e he => by simp [himplied e he]

theorem Grounded.length_trail_lt (hs : s.Grounded a) (hl : s.assignment.value l = .ok .unset) :
    s.trail.length < a.vars - a.assigned := by
  have hlt := hs.assignment_consistent.assigned_lt hl
  rw [hs.assignment, Assignment.vars_after, Assignment.assigned_after] at hlt
  omega

/-- **A round keeps the accounts.** -/
theorem Turn.balanced (h : Turn clauses a s none t) (hs : s.Grounded a)
    (hcl : Covers a.vars clauses) (hb : Balanced (a.vars - a.assigned) k d c s.trail) :
    Balanced (a.vars - a.assigned) (k + 1) (d + raised (·.decisions) s t)
      (c + raised (·.conflicts) s t) t.trail := by
  cases h with
  | @decided u v p _ hdraws hfirst =>
    have hg := hs.draws hcl hdraws
    have hlt := hg.length_trail_lt (hg.assignment_consistent.firstUnassigned_eq_some hfirst)
    have hdecision : raised (·.decisions) s (u.decidedOn ⟨v, p ≠ .negative⟩) = 1 :=
      raised_of_eq_add_one (congrArg (· + 1) hdraws.kept.decisions)
    have hconflict : raised (·.conflicts) s (u.decidedOn ⟨v, p ≠ .negative⟩) = 0 :=
      raised_of_eq hdraws.kept.conflicts
    rw [hdecision, hconflict]
    exact (hdraws.balanced hb).decided hlt
  | @flipped u gone earlier l _ hdraws _ htrail hclosed =>
    have hdecision : raised (·.decisions) s (u.conflicted.flipped a gone l earlier) = 0 :=
      raised_of_eq hdraws.kept.decisions
    have hconflict : raised (·.conflicts) s (u.conflicted.flipped a gone l earlier) = 1 :=
      raised_of_eq_add_one (congrArg (· + 1) hdraws.kept.conflicts)
    rw [hdecision, hconflict]
    exact (htrail ▸ hdraws.balanced hb : Balanced _ k d c _).flipped hclosed

/-- **The last round closes the accounts.** -/
theorem Turn.treeCounts (h : Turn clauses a s (some o) t) (hb : Balanced n k d c s.trail) :
    TreeCounts n (d + raised (·.decisions) s t) (c + raised (·.conflicts) s t) o t.trail := by
  have hlt := hb.decisions_lt
  have hrefuted := hb.refuted
  cases h with
  | stopped =>
    rw [raised_of_eq rfl, raised_of_eq rfl]
    exact ⟨by omega, by omega, nofun, nofun⟩
  | model _ hdraws =>
    have hopen := (hdraws.balanced hb).refuted
    rw [raised_of_eq hdraws.kept.decisions, raised_of_eq hdraws.kept.conflicts]
    exact ⟨by omega, by omega, nofun, fun _ _ => by omega⟩
  | @refuted u _ hdraws _ hclosed =>
    have hopen := (hdraws.balanced hb).refuted
    rw [openDecisions_of_closed hclosed] at hopen
    have hdecision : raised (·.decisions) s (u.conflicted.takenBack a u.trail []) = 0 :=
      raised_of_eq hdraws.kept.decisions
    have hconflict : raised (·.conflicts) s (u.conflicted.takenBack a u.trail []) = 1 :=
      raised_of_eq_add_one (congrArg (· + 1) hdraws.kept.conflicts)
    rw [hdecision, hconflict]
    exact ⟨by omega, by omega, fun _ => by omega, nofun⟩

end Search

open Search

variable {f : Formula} {s : Solver}

namespace Solver

/-- **A search ends** before it has gone through as many rounds as its tree has nodes, and its
answer is that of the last round. -/
theorem search_ends (hf : f.WellFormed) (hs : s.SizedTo f) :
    ∃ k o t, k < 2 ^ ((start s).free + 1) ∧ iterate f.clauses k (start s) = .ok (some o) t ∧
      search f s = .ok o t.solver ∧
      TreeCounts (start s).free (tally (·.decisions) f.clauses k (start s))
        (tally (·.conflicts) f.clauses k (start s)) o t.trail := by
  have hcl := hs.covers hf
  obtain ⟨r, t, ht, -, h⟩ := iterate_spec hs.grounded hcl
    (P := fun k t => Balanced (start s).free k (tally (·.decisions) f.clauses k (start s))
      (tally (·.conflicts) f.clauses k (start s)) t.trail)
    (Q := fun k o t => k < 2 ^ ((start s).free + 1) ∧
      TreeCounts (start s).free (tally (·.decisions) f.clauses k (start s))
        (tally (·.conflicts) f.clauses k (start s)) o t.trail)
    (Balanced.start _)
    (fun {k t r u} hk hg hb hround hturn => by
      rw [tally_succ hk hround, tally_succ hk hround]
      cases r with
      | none => exact hturn.balanced hg hcl hb
      | some o => exact ⟨hb.rounds_lt, hturn.treeCounts hb⟩)
    (2 ^ ((start s).free + 1))
  -- A run that long without a result would have more rounds than the tree has nodes.
  cases r with
  | none =>
    have := h.rounds_lt
    omega
  | some o =>
    obtain ⟨k, -, hk, hlt, hcounts⟩ := h
    exact ⟨k, o, t, hlt, hk, search_eq hs hk (Nat.le_of_lt hlt), hcounts⟩

/-- **What holds of every answer.** If `P` holds at the start, and each round keeps it or ends with
`Q`, then the search ends with `Q`. -/
theorem search_spec {P : Search → Prop} {Q : Outcome → Search → Prop} (hf : f.WellFormed)
    (hs : s.SizedTo f) (hstart : P (start s))
    (hround : ∀ {t r u}, t.Grounded s.store.assignment → P t →
      Turn f.clauses s.store.assignment t r u →
      match r with
      | none => P u
      | some o => Q o u) :
    ∃ o t, search f s = .ok o t.solver ∧ Q o t := by
  obtain ⟨k, o, t, -, hk, hsearch, -⟩ := search_ends hf hs
  obtain ⟨r, u, hu, -, h⟩ := iterate_spec hs.grounded (hs.covers hf) (P := fun _ => P)
    (Q := fun _ => Q) hstart (fun _ hg hp _ hturn => hround hg hp hturn) k
  obtain ⟨rfl, rfl⟩ : r = some o ∧ u = t := by simpa [hk, eq_comm] using hu
  obtain ⟨-, -, -, hq⟩ := h
  exact ⟨o, u, hsearch, hq⟩

/-- **The tree bound.** Over `n` free variables a search goes through less than `2 ^ (n + 1)`
rounds, with less than `2 ^ n` decisions and at most `2 ^ n` conflicts. There is one more conflict than
decisions if it finds no model, and as many conflicts as decisions that are no longer open if it
does. The counters are what they were before with these numbers added. -/
theorem search_walks_tree (hf : f.WellFormed) (hs : s.SizedTo f) :
    ∃ k o t, k ≤ 2 ^ ((start s).free + 1) - 1 ∧
      iterate f.clauses k (start s) = .ok (some o) t ∧ search f s = .ok o t.solver ∧
      TreeCounts (start s).free (tally (·.decisions) f.clauses k (start s))
        (tally (·.conflicts) f.clauses k (start s)) o t.trail ∧
      t.statistics.decisions = s.engine.statistics.decisions +
        UInt64.ofNat (tally (·.decisions) f.clauses k (start s)) ∧
      t.statistics.conflicts = s.engine.statistics.conflicts +
        UInt64.ofNat (tally (·.conflicts) f.clauses k (start s)) := by
  obtain ⟨k, o, t, hlt, hk, hsearch, hcounts⟩ := search_ends hf hs
  refine ⟨k, o, t, Nat.le_sub_one_of_lt hlt, hk, hsearch, hcounts, ?_, ?_⟩
  · exact counter_eq_add_tally (·.decisions) hk
  · exact counter_eq_add_tally (·.conflicts) hk

theorem search_walks_tree_refusal :
    ∃ k o, ∃ t : Search, k ≤ 7 ∧ search .refusal (blank {} 2) = .ok o t.solver ∧
      tally (·.conflicts) Formula.refusal.clauses k (start (blank {} 2)) ≤ 4 := by
  obtain ⟨k, o, t, hk, -, hsearch, hcounts, -, -⟩ :=
    search_walks_tree Formula.wellFormed_refusal (sizedTo_blank {} .refusal)
  exact ⟨k, o, t, hk, hsearch, hcounts.conflicts_le⟩

example : tally (·.conflicts) Formula.refusal.clauses 4 (start (blank {} 2)) = 1 := by
  decide +kernel

end Solver

end Polarity
