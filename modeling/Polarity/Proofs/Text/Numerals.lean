import Mathlib.Data.List.Basic
import Mathlib.Order.Basic
import Mathlib.Tactic.ByContra
import Polarity.Text.Numeral

/-!
# Which numerals are read

A numeral is read exactly when it is an optional sign before one or more decimal digits whose value
is in range: `natural_eq_ok_iff` for numbers without a sign of their own, `signed_eq_ok_iff` for
those that may be negative. The reader gives up as soon as its sum leaves the range; as further
digits only make it greater, the value as a whole is out of range just then.

A number that is written in decimal is a numeral for itself (`isNatural_toDigits`,
`isSigned_toString`).
-/

namespace Polarity.Numeral

variable {limit sum n : Nat} {beyond : NumeralError} {digits text : List Char} {c : Char} {t : Int}

/-- The digits, at least one, have this value. -/
structure Spells (digits : List Char) (n : Nat) : Prop where
  ne_nil : digits ≠ []
  isDigit : ∀ c ∈ digits, c.isDigit = true
  value_eq : value digits = n

/-- The text is a natural number up to the limit, with or without a plus sign. -/
def IsNatural (limit : Nat) (text : List Char) (n : Nat) : Prop :=
  ∃ digits, (text = digits ∨ text = '+' :: digits) ∧ Spells digits n ∧ n ≤ limit

/-- The text is a whole number from `-(limit + 1)` to `limit`, with or without a sign. -/
inductive IsSigned (limit : Nat) : List Char → Int → Prop
  | natural {text : List Char} {n : Nat} (h : IsNatural limit text n) : IsSigned limit text n
  | negative {digits : List Char} {n : Nat} (spells : Spells digits n) (hn : n ≤ limit + 1) :
      IsSigned limit ('-' :: digits) (-n)

/-! ## Digits -/

/-- The value that is reached from a sum by reading on. -/
def valueFrom (sum : Nat) (digits : List Char) : Nat :=
  digits.foldl (fun sum c => 10 * sum + (digit? c).getD 0) sum

theorem le_valueFrom (sum : Nat) (digits : List Char) : sum ≤ valueFrom sum digits := by
  induction digits generalizing sum with
  | nil => exact Nat.le_refl sum
  | cons c rest ih =>
    have hstep := ih (10 * sum + (digit? c).getD 0)
    rw [valueFrom, List.foldl_cons]
    rw [valueFrom] at hstep
    omega

theorem digit?_eq_none_iff : digit? c = none ↔ c.isDigit = false := by
  unfold digit?
  cases c.isDigit <;> simp

theorem accumulate_eq_ok_iff :
    accumulate limit beyond sum digits = .ok n ↔
      (∀ c ∈ digits, c.isDigit = true) ∧ valueFrom sum digits = n ∧
        (digits ≠ [] → n ≤ limit) := by
  induction digits generalizing sum with
  | nil => simp [accumulate, valueFrom]
  | cons c rest ih =>
    cases hc : digit? c with
    | none =>
      have hdigit := digit?_eq_none_iff.1 hc
      simp [accumulate, hc, hdigit]
    | some d =>
      have hdigit : c.isDigit = true := by
        by_contra h
        rw [digit?_eq_none_iff.2 (by simpa using h)] at hc
        cases hc
      have hvalue : valueFrom sum (c :: rest) = valueFrom (10 * sum + d) rest := by
        simp [valueFrom, hc]
      have hle := le_valueFrom (10 * sum + d) rest
      simp only [accumulate, hc, hvalue, List.forall_mem_cons, hdigit, true_and]
      by_cases hlimit : 10 * sum + d ≤ limit
      · rw [if_pos hlimit, ih]
        constructor
        · rintro ⟨hrest, rfl, hn⟩
          refine ⟨hrest, rfl, fun _ => ?_⟩
          cases rest with
          | nil => exact hlimit
          | cons => exact hn (by simp)
        · rintro ⟨hrest, rfl, hn⟩
          exact ⟨hrest, rfl, fun _ => hn (by simp)⟩
      · rw [if_neg hlimit]
        refine ⟨nofun, fun ⟨_, hn, hbound⟩ => ?_⟩
        have := hbound (by simp)
        omega

theorem magnitude_eq_ok_iff :
    magnitude limit beyond digits = .ok n ↔ Spells digits n ∧ n ≤ limit := by
  cases digits with
  | nil => exact ⟨nofun, fun h => absurd rfl h.1.ne_nil⟩
  | cons c rest =>
    have hmagnitude : magnitude limit beyond (c :: rest) =
        accumulate limit beyond 0 (c :: rest) := rfl
    rw [hmagnitude, accumulate_eq_ok_iff]
    constructor
    · rintro ⟨hdigits, hvalue, hn⟩
      exact ⟨⟨by simp, hdigits, hvalue⟩, hn (by simp)⟩
    · rintro ⟨hspells, hn⟩
      exact ⟨hspells.isDigit, hspells.value_eq, fun _ => hn⟩

/-- Digits do not begin with a sign. -/
theorem Spells.head_isDigit {rest : List Char} (h : Spells (c :: rest) n) : c.isDigit = true :=
  h.isDigit c (by simp)

/-! ## Signs -/

theorem isNatural_nil : ¬ IsNatural limit [] n := by
  rintro ⟨digits, rfl | h, hspells, -⟩
  · exact hspells.ne_nil rfl
  · cases h

theorem isNatural_plus : IsNatural limit ('+' :: digits) n ↔ Spells digits n ∧ n ≤ limit := by
  constructor
  · rintro ⟨ds, rfl | h, hspells, hn⟩
    · exact absurd hspells.head_isDigit (by decide)
    · obtain rfl := (List.cons.inj h).2
      exact ⟨hspells, hn⟩
  · rintro ⟨hspells, hn⟩
    exact ⟨digits, Or.inr rfl, hspells, hn⟩

theorem isNatural_of_ne_plus (hc : c ≠ '+') :
    IsNatural limit (c :: text) n ↔ Spells (c :: text) n ∧ n ≤ limit := by
  constructor
  · rintro ⟨ds, rfl | h, hspells, hn⟩
    · exact ⟨hspells, hn⟩
    · exact absurd (List.cons.inj h).1 hc
  · rintro ⟨hspells, hn⟩
    exact ⟨c :: text, Or.inl rfl, hspells, hn⟩

/-- **Natural numbers** are read exactly when they are numerals in range. -/
theorem natural_eq_ok_iff : natural limit text = .ok n ↔ IsNatural limit text n := by
  cases text with
  | nil => exact ⟨nofun, fun h => absurd h isNatural_nil⟩
  | cons c rest =>
    by_cases hc : c = '+'
    · subst hc
      rw [isNatural_plus, ← magnitude_eq_ok_iff]
      rfl
    · have hnatural : natural limit (c :: rest) = magnitude limit .tooLarge (c :: rest) := by
        simp [natural, hc]
      rw [isNatural_of_ne_plus hc, hnatural, magnitude_eq_ok_iff]

/-- The sign is given to a number that is read as a whole number first. -/
theorem map_cast_eq_ok_iff {r : Except NumeralError Nat} {f : Int → Int} :
    (do let n ← r; pure (n : Int) : Except NumeralError Int).map f = .ok t ↔
      ∃ n, r = .ok n ∧ t = f n := by
  cases r <;> simp [Except.map, bind, Except.bind, pure, Except.pure, eq_comm]

theorem isSigned_of_ne_minus (hc : text.head? ≠ some '-') :
    IsSigned limit text t ↔ ∃ n, IsNatural limit text n ∧ t = n := by
  constructor
  · intro h
    cases h with
    | natural h => exact ⟨_, h, rfl⟩
    | negative => exact absurd rfl hc
  · rintro ⟨n, h, rfl⟩
    exact .natural h

theorem isSigned_minus :
    IsSigned limit ('-' :: digits) t ↔ ∃ n, (Spells digits n ∧ n ≤ limit + 1) ∧ t = -(n : Int) := by
  constructor
  · intro h
    cases h with
    | natural h => exact absurd ((isNatural_of_ne_plus (by decide)).1 h).1.head_isDigit (by decide)
    | negative hspells hn => exact ⟨_, ⟨hspells, hn⟩, rfl⟩
  · rintro ⟨n, ⟨hspells, hn⟩, rfl⟩
    exact .negative hspells hn

/-- A numeral starts with a digit or a sign. -/
theorem IsSigned.head (h : IsSigned limit (c :: text) t) :
    c.isDigit = true ∨ c = '+' ∨ c = '-' := by
  cases h with
  | natural h =>
    by_cases hc : c = '+'
    · exact Or.inr (Or.inl hc)
    · exact Or.inl ((isNatural_of_ne_plus hc).1 h).1.head_isDigit
  | negative => exact Or.inr (Or.inr rfl)

/-- **Whole numbers** are read exactly when they are numerals in range. -/
theorem signed_eq_ok_iff : signed limit text = .ok t ↔ IsSigned limit text t := by
  cases text with
  | nil =>
    rw [isSigned_of_ne_minus (by simp)]
    exact ⟨nofun, fun ⟨_, h, _⟩ => absurd h isNatural_nil⟩
  | cons c rest =>
    by_cases hminus : c = '-'
    · subst hminus
      rw [isSigned_minus, signed, map_cast_eq_ok_iff]
      simp only [magnitude_eq_ok_iff]
    · rw [isSigned_of_ne_minus (by simpa using hminus)]
      by_cases hplus : c = '+'
      · subst hplus
        rw [signed, map_cast_eq_ok_iff]
        simp only [magnitude_eq_ok_iff, isNatural_plus]
      · rw [signed, map_cast_eq_ok_iff]
        · simp only [magnitude_eq_ok_iff, isNatural_of_ne_plus hplus]
        all_goals simp [hminus, hplus]

/-! ## Written numbers -/

theorem value_eq_ofDigitChars (h : ∀ c ∈ digits, c.isDigit = true) :
    value digits = Nat.ofDigitChars 10 digits 0 := by
  rw [value, Nat.ofDigitChars]
  refine List.foldl_ext _ _ _ fun sum c hc => ?_
  simp [digit?, h c hc]

/-- A number is spelled by its decimal digits. -/
theorem spells_toDigits (n : Nat) : Spells (Nat.toDigits 10 n) n where
  ne_nil := Nat.toDigits_ne_nil
  isDigit _ hc := Nat.isDigit_of_mem_toDigits (by decide) (by decide) hc
  value_eq := by
    rw [value_eq_ofDigitChars fun _ => Nat.isDigit_of_mem_toDigits (by decide) (by decide),
      Nat.ofDigitChars_ten_toDigits]

theorem exists_toDigits_eq_cons (n : Nat) :
    ∃ d later, Nat.toDigits 10 n = d :: later ∧ d.isDigit = true := by
  obtain ⟨d, later, hdigits⟩ := List.exists_cons_of_ne_nil (spells_toDigits n).ne_nil
  exact ⟨d, later, hdigits, (spells_toDigits n).isDigit d (by simp [hdigits])⟩

/-- Only zero is written with a zero at the front. -/
theorem toDigits_of_pos (hn : 0 < n) : ∃ c later, Nat.toDigits 10 n = c :: later ∧ c ≠ '0' := by
  induction n using Nat.strongRecOn with
  | ind n ih =>
    by_cases hlt : n < 10
    · have hdigit : ∀ d < 10, 0 < d → d.digitChar ≠ '0' := by decide
      exact ⟨n.digitChar, [], Nat.toDigits_of_lt_base hlt, hdigit n hlt hn⟩
    · obtain ⟨c, later, hdigits, hc⟩ := ih (n / 10) (by omega) (by omega)
      refine ⟨c, later ++ [(n % 10).digitChar], ?_, hc⟩
      rw [Nat.toDigits_of_base_le (by decide) (by omega), hdigits, List.cons_append]

/-- A run of digits goes as far as the next character that is none. -/
theorem readDigits_append (hdigits : ∀ d ∈ digits, d.isDigit = true) (hc : c.isDigit = false)
    (rest : List Char) : readDigits (digits ++ c :: rest) = (digits, c :: rest) := by
  rw [readDigits, List.takeWhile_append_of_pos hdigits, List.dropWhile_append_of_pos hdigits,
    List.takeWhile_cons_of_neg (by simp [hc]), List.dropWhile_cons_of_neg (by simp [hc]),
    List.append_nil]

theorem isNatural_toDigits (hn : n ≤ limit) : IsNatural limit (Nat.toDigits 10 n) n :=
  ⟨_, Or.inl rfl, spells_toDigits n, hn⟩

theorem isSigned_toString (ht : t.natAbs ≤ limit) : IsSigned limit (toString t).toList t := by
  cases t with
  | ofNat n =>
    have htext : (toString (Int.ofNat n)).toList = Nat.toDigits 10 n := Nat.toList_repr
    rw [htext]
    exact .natural (isNatural_toDigits ht)
  | negSucc n =>
    have htext : (toString (Int.negSucc n)).toList = '-' :: Nat.toDigits 10 (n + 1) := by
      show ("-" ++ toString (n + 1)).toList = _
      simp
    rw [htext]
    exact .negative (spells_toDigits (n + 1)) (Nat.le_succ_of_le ht)

/-- A numeral has one value. -/
theorem IsSigned.unique {u : Int} (ht : IsSigned limit text t) (hu : IsSigned limit text u) :
    t = u :=
  Except.ok.inj ((signed_eq_ok_iff.2 ht).symm.trans (signed_eq_ok_iff.2 hu))

end Polarity.Numeral
