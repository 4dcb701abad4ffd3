import Polarity.Failure

/-!
# Running a change

How each combinator of `Change` acts on a state. With these equations `simp` runs an operation step
by step once the outcome of each step is known, so that later proofs unfold the operation and none
of the machinery below it. The first of them hold whatever the reasons are for which steps fail.
-/

namespace Polarity.Change

variable {ε σ τ α β : Type}

@[simp] theorem bind_run (c : EStateM ε σ α) (k : α → EStateM ε σ β) (s : σ) :
    (c >>= k) s = match c s with
      | .ok a t => k a t
      | .error e t => .error e t := by
  show EStateM.bind c k s = _
  cases h : c s <;> simp only [EStateM.bind, h]

@[simp] theorem pure_run (a : α) (s : σ) : (pure a : EStateM ε σ α) s = .ok a s := rfl

@[simp] theorem map_run (f : α → β) (c : EStateM ε σ α) (s : σ) :
    (f <$> c) s = match c s with
      | .ok a t => .ok (f a) t
      | .error e t => .error e t := by
  show EStateM.map f c s = _
  cases h : c s <;> simp only [EStateM.map, h]

@[simp] theorem get_run (s : σ) : (get : EStateM ε σ σ) s = .ok s s := rfl

@[simp] theorem stateGet_run (s : σ) : (EStateM.get : EStateM ε σ σ) s = .ok s s := rfl

@[simp] theorem modify_run (f : σ → σ) (s : σ) :
    (modify f : EStateM ε σ Unit) s = .ok () (f s) := rfl

@[simp] theorem set_run (t s : σ) : (set t : EStateM ε σ PUnit) s = .ok ⟨⟩ t := rfl

@[simp] theorem throw_run (e : ε) (s : σ) : (throw e : EStateM ε σ α) s = .error e s := rfl

@[simp] theorem abort_run (f : Fault) (s : σ) :
    (abort f : Change σ α) s = .error (.fault f) s := rfl

@[simp] theorem refuse_run (e : Error) (s : σ) :
    (refuse e : Change σ α) s = .error (.error e) s := rfl

theorem ensure_run {p : Prop} [Decidable p] (hp : p) (f : Fault) (s : σ) :
    (ensure p f : Change σ Unit) s = .ok () s := by
  rw [ensure, if_pos hp]
  rfl

@[simp] theorem read_run (f : σ → Except Failure α) (s : σ) :
    read f s = match f s with
      | .ok a => .ok a s
      | .error e => .error e s := rfl

@[simp] theorem on_run (part : σ → τ) (put : σ → τ → σ) (c : Change τ α) (s : σ) :
    on part put c s = match c (part s) with
      | .ok a t => .ok a (put s t)
      | .error e t => .error e (put s t) := rfl

end Polarity.Change
