import Mathlib.Data.List.Forall2

/-!
# Results of steps that may fail

When a chain of steps succeeds, and with which value: each step does, and the value is that of the
last one. A loop of such steps is opened once by `foldlM_eq_ok_iff`, so that a reader is described
by what one step accepts. A chain fails with the error of one of its steps. Of steps that do not hang
together each has to succeed (`mapM_eq_ok_iff`), and the first that fails is the one that is named
(`exists_of_mapM_eq_error`). Where only the last result counts, it is that of the last step that has one
(`getLast?_filterMap_eq_some_iff`).
-/

namespace Polarity

variable {α β γ ε ε' : Type}

theorem bind_eq_ok_iff {r : Except ε α} {k : α → Except ε β} {b : β} :
    (r >>= k) = .ok b ↔ ∃ a, r = .ok a ∧ k a = .ok b := by
  cases r <;> simp [bind, Except.bind]

theorem bind_eq_error_iff {r : Except ε α} {k : α → Except ε β} {e : ε} :
    (r >>= k) = .error e ↔ r = .error e ∨ ∃ a, r = .ok a ∧ k a = .error e := by
  cases r <;> simp [bind, Except.bind]

theorem pure_eq_ok_iff {a b : α} : (pure a : Except ε α) = .ok b ↔ b = a := by
  simp [pure, Except.pure, eq_comm]

theorem map_eq_ok_iff {r : Except ε α} {f : α → β} {b : β} :
    r.map f = .ok b ↔ ∃ a, r = .ok a ∧ b = f a := by
  cases r <;> simp [Except.map, eq_comm]

theorem map_eq_error_iff {r : Except ε α} {f : α → β} {e : ε} :
    r.map f = .error e ↔ r = .error e := by
  cases r <;> simp [Except.map]

theorem mapError_eq_ok_iff {r : Except ε α} {f : ε → ε'} {a : α} :
    r.mapError f = .ok a ↔ r = .ok a := by
  cases r <;> simp [Except.mapError]

theorem mapError_eq_error_iff {r : Except ε α} {f : ε → ε'} {e : ε'} :
    r.mapError f = .error e ↔ ∃ e', r = .error e' ∧ f e' = e := by
  cases r <;> simp [Except.mapError]

theorem toOption_eq_some_iff {r : Except ε α} {a : α} : r.toOption = some a ↔ r = .ok a := by
  cases r <;> simp [Except.toOption]

theorem guard_eq_ok_iff {p : Prop} [Decidable p] {e : ε} {r : Except ε α} {a : α} :
    (do
      if p then
        throw e
      r) = .ok a ↔ ¬ p ∧ r = .ok a := by
  by_cases hp : p <;> simp [hp, throw, throwThe, MonadExceptOf.throw, bind, Except.bind]

theorem forall₂_append_left_iff {R : α → β → Prop} {l m : List α} {ys : List β} :
    List.Forall₂ R (l ++ m) ys ↔
      ∃ us vs, List.Forall₂ R l us ∧ List.Forall₂ R m vs ∧ ys = us ++ vs := by
  induction l generalizing ys with
  | nil => simp
  | cons a l ih =>
    simp only [List.cons_append, List.forall₂_cons_left_iff, ih]
    constructor
    · rintro ⟨b, _, hb, ⟨us, vs, hus, hvs, rfl⟩, rfl⟩
      exact ⟨b :: us, vs, ⟨b, us, hb, hus, rfl⟩, hvs, rfl⟩
    · rintro ⟨_, vs, ⟨b, us, hb, hus, rfl⟩, hvs, rfl⟩
      exact ⟨b, us ++ vs, hb, ⟨us, vs, hus, hvs, rfl⟩, rfl⟩

/-- A loop succeeds when each of its steps accepts what it is given. -/
theorem foldlM_eq_ok_iff {step : α → β → Except ε α} {R : β → γ → Prop} {g : α → γ → α}
    (hstep : ∀ a x a', step a x = .ok a' ↔ ∃ y, R x y ∧ a' = g a y) {l : List β} {a a' : α} :
    l.foldlM step a = .ok a' ↔ ∃ ys, List.Forall₂ R l ys ∧ a' = ys.foldl g a := by
  induction l generalizing a with
  | nil => simp [pure, Except.pure, eq_comm]
  | cons x l ih =>
    simp only [List.foldlM_cons, bind_eq_ok_iff, hstep, ih, List.forall₂_cons_left_iff]
    constructor
    · rintro ⟨_, ⟨y, hy, rfl⟩, ys, hys, rfl⟩
      exact ⟨y :: ys, ⟨y, ys, hy, hys, rfl⟩, rfl⟩
    · rintro ⟨_, ⟨y, ys, hy, hys, rfl⟩, rfl⟩
      exact ⟨g a y, ⟨y, hy, rfl⟩, ys, hys, rfl⟩

/-- A loop fails with the error of one of its steps. -/
theorem exists_of_foldlM_eq_error {step : α → β → Except ε α} {l : List β} {a : α} {e : ε}
    (h : l.foldlM step a = .error e) : ∃ a', ∃ x ∈ l, step a' x = .error e := by
  induction l generalizing a with
  | nil => cases h
  | cons x l ih =>
    rw [List.foldlM_cons, bind_eq_error_iff] at h
    rcases h with h | ⟨b, -, h⟩
    · exact ⟨a, x, List.mem_cons_self, h⟩
    · obtain ⟨a', y, hy, hstep⟩ := ih h
      exact ⟨a', y, List.mem_cons_of_mem x hy, hstep⟩

theorem mapM_eq_ok {f : α → Except ε β} {g : α → β} {l : List α} (h : ∀ a ∈ l, f a = .ok (g a)) :
    l.mapM f = .ok (l.map g) := by
  induction l with
  | nil => rfl
  | cons a l ih =>
    rw [List.mapM_cons, h a (by simp), ih fun b hb => h b (by simp [hb])]
    rfl

/-- Steps that do not hang together succeed when each of them does. -/
theorem mapM_eq_ok_iff {f : α → Except ε β} {l : List α} {ys : List β} :
    l.mapM f = .ok ys ↔ List.Forall₂ (fun a y => f a = .ok y) l ys := by
  induction l generalizing ys with
  | nil => simp [pure_eq_ok_iff]
  | cons a l ih =>
    simp only [List.mapM_cons, bind_eq_ok_iff, pure_eq_ok_iff, ih, List.forall₂_cons_left_iff]
    constructor
    · rintro ⟨y, hy, ys, hys, rfl⟩
      exact ⟨y, ys, hy, hys, rfl⟩
    · rintro ⟨y, ys, hy, hys, rfl⟩
      exact ⟨y, hy, ys, hys, rfl⟩

/-- They fail with the error of the first one that fails. -/
theorem exists_of_mapM_eq_error {f : α → Except ε β} {l : List α} {e : ε}
    (h : l.mapM f = .error e) :
    ∃ before a after, l = before ++ a :: after ∧ f a = .error e ∧
      ∀ b ∈ before, ∃ y, f b = .ok y := by
  induction l with
  | nil => cases h
  | cons a l ih =>
    rw [List.mapM_cons, bind_eq_error_iff] at h
    rcases h with ha | ⟨y, hy, hrest⟩
    · exact ⟨[], a, l, rfl, ha, nofun⟩
    · rcases bind_eq_error_iff.1 hrest with hl | ⟨ys, -, hdone⟩
      · obtain ⟨before, b, after, rfl, hb, hbefore⟩ := ih hl
        exact ⟨a :: before, b, after, rfl, hb, List.forall_mem_cons.2 ⟨⟨y, hy⟩, hbefore⟩⟩
      · cases hdone

/-- The last result comes of the last step that has one. -/
theorem getLast?_filterMap_eq_some_iff {f : α → Option β} {l : List α} {b : β} :
    (l.filterMap f).getLast? = some b ↔
      ∃ before a after, l = before ++ a :: after ∧ f a = some b ∧ ∀ c ∈ after, f c = none := by
  rw [List.getLast?_filterMap, List.findSome?_eq_some_iff]
  constructor
  · rintro ⟨after, a, before, hsplit, ha, hafter⟩
    refine ⟨before.reverse, a, after.reverse, ?_, ha, fun c hc => hafter c (List.mem_reverse.1 hc)⟩
    simpa using congrArg List.reverse hsplit
  · rintro ⟨before, a, after, rfl, ha, hafter⟩
    refine ⟨after.reverse, a, before.reverse, by simp, ha, fun c hc => ?_⟩
    exact hafter c (List.mem_reverse.1 hc)

end Polarity
