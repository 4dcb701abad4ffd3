import Polarity.Proofs.Change

/-!
# Two changes in lockstep

Two runs are compared step by step. The second one *matches* the first when it succeeds wherever the
first one does, with a related answer and a related state (`Matches`). The runs start from given
states, so that steps which only write to the state are carried out by the equations of `Change`.
There are rules for one change after another, for steps that look at the state first, and for a
change of a part.
-/

namespace Polarity.Change

variable {σ τ ρ κ α β γ δ : Type}

/-- If the first change succeeds, so does the second one, and answers and states are related. -/
def Matches (E : α → β → Prop) (R : σ → τ → Prop) (x : EStateM.Result Failure σ α)
    (y : EStateM.Result Failure τ β) : Prop :=
  ∀ ⦃a s⦄, x = .ok a s → ∃ b t, y = .ok b t ∧ E a b ∧ R s t

variable {E : α → β → Prop} {F : γ → δ → Prop} {R : σ → τ → Prop} {S : ρ → κ → Prop}

theorem matches_ok {a : α} {b : β} {s : σ} {t : τ} (he : E a b) (hr : R s t) :
    Matches E R (.ok a s) (.ok b t) := by
  intro a' s' h
  obtain ⟨rfl, rfl⟩ : a = a' ∧ s = s' := by simpa using h
  exact ⟨b, t, rfl, he, hr⟩

theorem matches_error {e : Failure} {s : σ} {y : EStateM.Result Failure τ β} :
    Matches E R (.error e s) y := fun _ _ h => nomatch h

theorem Matches.bind {c : Change σ α} {d : Change τ β} {k : α → Change σ γ} {l : β → Change τ δ}
    {s : σ} {t : τ} (h : Matches E R (c s) (d t))
    (hk : ∀ a b s' t', c s = .ok a s' → E a b → R s' t' → Matches F R (k a s') (l b t')) :
    Matches F R ((c >>= k) s) ((d >>= l) t) := by
  rw [bind_run, bind_run]
  cases hc : c s with
  | error e u => exact matches_error
  | ok a u =>
    obtain ⟨b, v, hd, he, hr⟩ := h hc
    rw [hd]
    exact hk a b u v hc he hr

theorem Matches.get_bind {k : σ → Change σ γ} {l : τ → Change τ δ} {s : σ} {t : τ}
    (h : Matches F R (k s s) (l t t)) : Matches F R ((get >>= k) s) ((get >>= l) t) := h

theorem Matches.read_bind {f : σ → Except Failure α} {g : τ → Except Failure β}
    {k : α → Change σ γ} {l : β → Change τ δ} {s : σ} {t : τ}
    (h : ∀ x, f s = .ok x → ∃ y, g t = .ok y ∧ Matches F R (k x s) (l y t)) :
    Matches F R ((read f >>= k) s) ((read g >>= l) t) := by
  rw [bind_run, bind_run, read_run, read_run]
  cases hf : f s with
  | error e => exact matches_error
  | ok x =>
    obtain ⟨y, hg, hk⟩ := h x hf
    rw [hg]
    exact hk

theorem Matches.on {part : ρ → σ} {put : ρ → σ → ρ} {part' : κ → τ} {put' : κ → τ → κ}
    {c : Change σ α} {d : Change τ β} {u : ρ} {v : κ}
    (h : Matches E R (c (part u)) (d (part' v)))
    (hput : ∀ s t, R s t → S (put u s) (put' v t)) :
    Matches E S (on part put c u) (on part' put' d v) := by
  rw [on_run, on_run]
  cases hc : c (part u) with
  | error e w => exact matches_error
  | ok a s =>
    obtain ⟨b, t, hd, he, hr⟩ := h hc
    rw [hd]
    exact matches_ok he (hput s t hr)

end Polarity.Change
