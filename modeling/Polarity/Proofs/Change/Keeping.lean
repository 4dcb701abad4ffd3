import Polarity.Proofs.Change

/-!
# What a change keeps

A property of states is *kept* by a change when it holds afterwards if it held before, whether or
not the change fails (`Keeps`). There is one rule for each combinator, so that a property of a whole
operation is a property of the few steps that write to the state.
-/

namespace Polarity.Change

variable {σ τ α β : Type} {P : σ → Prop} {Q : τ → Prop}

/-- The property holds after the change if it held before, also when the change fails. -/
def Keeps (P : σ → Prop) (c : Change σ α) : Prop := ∀ s, P s → P (c.carry s).state

theorem keeps_pure (a : α) : Keeps P (pure a : Change σ α) := fun _ h => h

theorem keeps_abort (f : Fault) : Keeps P (abort f : Change σ α) := fun _ h => h

theorem keeps_refuse (e : Error) : Keeps P (refuse e : Change σ α) := fun _ h => h

theorem keeps_get : Keeps P (get : Change σ σ) := fun _ h => h

theorem keeps_modify {f : σ → σ} (h : ∀ s, P s → P (f s)) : Keeps P (modify f : Change σ Unit) := h

theorem keeps_ensure (p : Prop) [Decidable p] (f : Fault) :
    Keeps P (ensure p f : Change σ Unit) := by
  unfold ensure
  split
  · exact keeps_pure ()
  · exact keeps_abort f

theorem keeps_read (f : σ → Except Failure α) : Keeps P (read f) := by
  intro s h
  unfold carry
  rw [read_run]
  cases f s <;> exact h

theorem Keeps.bind {c : Change σ α} {k : α → Change σ β} (hc : Keeps P c)
    (hk : ∀ a, Keeps P (k a)) : Keeps P (c >>= k) := by
  intro s h
  have hs := hc s h
  unfold carry at hs ⊢
  rw [bind_run]
  cases hrun : c s with
  | error e t => simpa only [hrun] using hs
  | ok a t =>
    rw [hrun] at hs
    exact hk a t hs

theorem keeps_ite (p : Prop) [Decidable p] {c d : Change σ α} (hc : Keeps P c) (hd : Keeps P d) :
    Keeps P (if p then c else d) := by
  split
  · exact hc
  · exact hd

/-- A change of a part keeps what the part it leaves allows. -/
theorem Keeps.on {part : σ → τ} {put : σ → τ → σ} {c : Change τ α} (hc : Keeps Q c)
    (hpart : ∀ s, P s → Q (part s)) (hput : ∀ s t, P s → Q t → P (put s t)) :
    Keeps P (on part put c) := by
  intro s h
  have hs := hc _ (hpart s h)
  unfold carry at hs ⊢
  rw [on_run]
  cases hrun : c (part s) <;> rw [hrun] at hs <;> exact hput s _ h hs

end Polarity.Change
