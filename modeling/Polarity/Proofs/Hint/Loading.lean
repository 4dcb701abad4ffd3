import Polarity.Store

/-!
# What comes of reading a hint

A text or a file either gives a hint with as many phases as were expected, or an error that is about
the file: that it cannot be opened or read, a word that stands for no phase, or the wrong number of
words.
-/

namespace Polarity

/-- The error is about a hint file and not about the solver. -/
def Error.ofHintFile : Error → Bool
  | fileOpen .. | fileRead .. | badToken .. | countMismatch .. => true
  | _ => false

namespace Hint

theorem readWords_error {path : Path} {e : Error} {i : Nat} {words : List (List Char)}
    (he : readWords path i words = .error e) : e.ofHintFile = true := by
  induction words generalizing i with
  | nil => cases he
  | cons word later ih =>
    rw [readWords] at he
    cases hword : phaseOf? word with
    | none =>
      rw [hword] at he
      cases he
      rfl
    | some p =>
      cases hlater : readWords path (i + 1) later with
      | error e' =>
        obtain rfl : e' = e := by simpa [hword, hlater, Except.map] using he
        exact ih hlater
      | ok phases => simp [hword, hlater, Except.map] at he

theorem parse_cases (text : String) (path : Path) (n : Nat) :
    (∃ h, parse text path n = .ok h ∧ h.size = n) ∨
      ∃ e, parse text path n = .error e ∧ e.ofHintFile = true := by
  unfold parse
  cases hwords : readWords path 0 (Text.words text.toList) with
  | error e => exact Or.inr ⟨e, rfl, readWords_error hwords⟩
  | ok phases =>
    by_cases hn : phases.length = n
    · exact Or.inl ⟨⟨path, phases⟩, by simp [bind, Except.bind, hn, pure, Except.pure], hn⟩
    · refine Or.inr ⟨.countMismatch path phases.length n, ?_, rfl⟩
      simp [bind, Except.bind, hn, throw, throwThe, MonadExceptOf.throw]

/-- **A hint that is loaded has the size that was expected**, and a failure is about the file. -/
theorem load_cases (read : Reader) (path : Path) (n : Nat) :
    (∃ h, load read path n = .ok h ∧ h.size = n) ∨
      ∃ e, load read path n = .error e ∧ e.ofHintFile = true := by
  unfold load
  cases read.text path with
  | ok text => exact parse_cases text path n
  | error failure =>
    cases failure with
    | opening cause => exact Or.inr ⟨_, rfl, rfl⟩
    | reading cause => exact Or.inr ⟨_, rfl, rfl⟩

theorem size_of_load {read : Reader} {path : Path} {n : Nat} {h : Hint}
    (hload : load read path n = .ok h) : h.size = n := by
  rcases load_cases read path n with ⟨h', hload', hsize⟩ | ⟨e, he, -⟩
  · rw [hload] at hload'
    rw [Except.ok.inj hload', hsize]
  · rw [hload] at he
    cases he

end Hint

theorem Store.hintOf_error {text : String} {failure : Failure}
    (h : hintOf text = .error failure) : ∃ e, failure = .error e := by
  unfold hintOf at h
  cases hparse : Hint.parseAll text inlineHint with
  | error e =>
    rw [hparse] at h
    exact ⟨e, (Except.error.inj h).symm⟩
  | ok hint =>
    rw [hparse] at h
    cases h

end Polarity
