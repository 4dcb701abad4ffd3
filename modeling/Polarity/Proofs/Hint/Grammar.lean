import Mathlib.Data.List.Forall2
import Polarity.Hint.Parser
import Polarity.Proofs.Results
import Polarity.Proofs.Text.Spacing

/-!
# The grammar of hint files

**Theorem (`parse_accepts_lexicon`).** A text is read as a hint exactly when all its words stand for
phases and there are as many of them as expected. Otherwise the first word that stands for no phase
is reported, and a wrong number of words only when there is no such word.

Which word stands for which phase is the table `lexicon`, and two words are the same when they
differ in the case of ASCII letters only (`SameLetter`). No other letter has a case here: the Kelvin
sign is no `k`.
-/

namespace Polarity.Hint

/-! ## Words for phases -/

/-- The characters are the upper and the lower case of an ASCII letter. -/
def CaseOf (upper lower : Char) : Prop :=
  'A' ≤ upper ∧ upper ≤ 'Z' ∧ lower.toNat = upper.toNat + 32

/-- The characters are equal, or the two cases of an ASCII letter. -/
def SameLetter (a b : Char) : Prop := a = b ∨ CaseOf a b ∨ CaseOf b a

/-- The words of a hint file, in lower case, and the phases that they stand for. -/
def lexicon : List (String × Phase) :=
  [("+1", .positive), ("1", .positive), ("t", .positive), ("true", .positive),
    ("-1", .negative), ("0", .negative), ("f", .negative), ("false", .negative),
    ("d", .unset), ("x", .unset), ("none", .unset), ("skip", .unset), ("*", .unset)]

/-- Whatever the case of its letters, the word stands in the lexicon with this phase. -/
def StandsFor (word : List Char) (p : Phase) : Prop :=
  ∃ entry, (entry, p) ∈ lexicon ∧ List.Forall₂ SameLetter word entry.toList

variable {path : Path} {p q : Phase} {word : List Char} {words : List (List Char)} {i n : Nat}
  {phases : List Phase}

theorem isUpper_iff {c : Char} : c.isUpper = true ↔ 'A'.val ≤ c.val ∧ c.val ≤ 'Z'.val :=
  decide_eq_true_iff

theorem toLower_eq_self {c : Char} (hc : ¬ c.isUpper = true) : c.toLower = c :=
  dif_neg fun h => hc (isUpper_iff.2 h)

theorem toNat_toLower {c : Char} (hc : c.isUpper = true) : c.toLower.toNat = c.toNat + 32 := by
  have hrange := isUpper_iff.1 hc
  have hval : c.toLower.val = c.val + 32 := by
    unfold Char.toLower
    rw [dif_pos hrange]
    rfl
  have hbound : c.val.toNat ≤ 90 := UInt32.le_iff_toNat_le.1 hrange.2
  have hsum : (c.val + 32).toNat = (c.val.toNat + 32) % 2 ^ 32 := UInt32.toNat_add c.val 32
  calc c.toLower.toNat = (c.val + 32).toNat := congrArg UInt32.toNat hval
    _ = c.val.toNat + 32 := by omega

theorem caseOf_iff {a b : Char} : CaseOf a b ↔ a.isUpper = true ∧ a.toLower = b := by
  rw [CaseOf, ← and_assoc, Char.le_def, Char.le_def, ← isUpper_iff]
  refine and_congr_right fun ha => ?_
  rw [← toNat_toLower ha, Char.toNat_inj, eq_comm]

/-- A character is the same as one that is no upper case if it is so after lowering its case. -/
theorem sameLetter_iff {a b : Char} (hb : b.isUpper = false) :
    SameLetter a b ↔ a.toLower = b := by
  simp only [SameLetter, caseOf_iff, hb, Bool.false_eq_true, false_and, or_false]
  by_cases ha : a.isUpper = true
  · have hne : a ≠ b := fun h => by simp [← h, ha] at hb
    simp [ha, hne]
  · simp [toLower_eq_self ha, ha]

theorem forall₂_sameLetter_iff {letters : List Char} (h : ∀ c ∈ letters, c.isUpper = false) :
    List.Forall₂ SameLetter word letters ↔ word.map Char.toLower = letters := by
  induction letters generalizing word with
  | nil => simp
  | cons c letters ih =>
    obtain ⟨hc, hletters⟩ := List.forall_mem_cons.1 h
    cases word with
    | nil => simp
    | cons a word =>
      rw [List.forall₂_cons, sameLetter_iff hc, ih hletters, List.map_cons, List.cons.injEq]

theorem standsFor_iff :
    StandsFor word p ↔ ∃ entry, (entry, p) ∈ lexicon ∧ word.map Char.toLower = entry.toList := by
  have hlower : ∀ e ∈ lexicon, ∀ c ∈ e.1.toList, c.isUpper = false := by simp [lexicon]
  refine exists_congr fun entry => and_congr_right fun hmem => ?_
  exact forall₂_sameLetter_iff (hlower _ hmem)

/-- A word stands for one phase at most. -/
theorem StandsFor.unique (hp : StandsFor word p) (hq : StandsFor word q) : p = q := by
  have hlookup : ∀ e ∈ lexicon, lexicon.lookup e.1 = some e.2 := by
    simp [lexicon, List.lookup_cons]
  obtain ⟨entry, hmem, hword⟩ := standsFor_iff.1 hp
  obtain ⟨entry', hmem', hword'⟩ := standsFor_iff.1 hq
  obtain rfl : entry = entry' := String.toList_injective (hword.symm.trans hword')
  exact Option.some.inj ((hlookup _ hmem).symm.trans (hlookup _ hmem'))

theorem mem_lexicon_iff {entry : String} : (entry, p) ∈ lexicon ↔ entry ∈ spellings p := by
  cases p <;> simp [lexicon, spellings]

theorem spells_iff : spells word p = true ↔ StandsFor word p := by
  simp only [standsFor_iff, mem_lexicon_iff, spells, List.any_eq_true, beq_iff_eq,
    eq_comm (b := word.map Char.toLower)]

/-- **A word is understood exactly when the lexicon has it.** -/
theorem phaseOf?_eq_some_iff : phaseOf? word = some p ↔ StandsFor word p := by
  constructor
  · intro h
    exact spells_iff.1 (List.find?_some h)
  · intro h
    have hsome : (phaseOf? word).isSome = true :=
      List.find?_isSome.2 ⟨p, by cases p <;> simp, spells_iff.2 h⟩
    obtain ⟨q, hq⟩ := Option.isSome_iff_exists.1 hsome
    rw [hq, (spells_iff.1 (List.find?_some hq)).unique h]

instance (word : List Char) (p : Phase) : Decidable (StandsFor word p) :=
  decidable_of_iff (phaseOf? word = some p) phaseOf?_eq_some_iff

theorem phaseOf?_eq_none_iff : phaseOf? word = none ↔ ∀ p, ¬ StandsFor word p := by
  simp [← phaseOf?_eq_some_iff, Option.eq_none_iff_forall_ne_some]

/-! ## Reading -/

theorem readWords_eq_ok_iff :
    readWords path i words = .ok phases ↔ List.Forall₂ StandsFor words phases := by
  induction words generalizing i phases with
  | nil => simp [readWords, eq_comm]
  | cons word later ih =>
    rw [readWords]
    cases hword : phaseOf? word with
    | none =>
      have hnone := phaseOf?_eq_none_iff.1 hword
      simp [List.forall₂_cons_left_iff, hnone]
    | some p =>
      have hstands := phaseOf?_eq_some_iff.1 hword
      simp only [map_eq_ok_iff, ih, List.forall₂_cons_left_iff]
      constructor
      · rintro ⟨rest, hrest, rfl⟩
        exact ⟨p, rest, hstands, hrest, rfl⟩
      · rintro ⟨q, rest, hq, hrest, rfl⟩
        exact ⟨rest, hrest, by rw [hstands.unique hq]⟩

/-- The first word that stands for no phase is reported with its place. -/
theorem readWords_eq_error {first : Nat} (hi : i < words.length)
    (hbad : ∀ p, ¬ StandsFor words[i] p) (hgood : ∀ j, (hj : j < i) → ∃ p, StandsFor words[j] p) :
    readWords path first words = .error (.badToken (String.ofList words[i]) (first + i) path) := by
  -- On the words before it.
  induction words generalizing first i with
  | nil => cases hi
  | cons word later ih =>
    cases i with
    | zero =>
      have hword : phaseOf? word = none := phaseOf?_eq_none_iff.2 hbad
      simp [readWords, hword]
    | succ i =>
      obtain ⟨p, hp⟩ : ∃ p, StandsFor word p := hgood 0 (Nat.zero_lt_succ i)
      have hi' : i < later.length := Nat.lt_of_succ_lt_succ hi
      have hlater : readWords path (first + 1) later =
          .error (.badToken (String.ofList later[i]) (first + 1 + i) path) :=
        ih hi' hbad fun j hj => hgood (j + 1) (Nat.succ_lt_succ hj)
      rw [readWords, phaseOf?_eq_some_iff.2 hp, hlater, Nat.add_right_comm, Nat.add_assoc]
      rfl

theorem parse_of_stands {text : String} (path : Path) (n : Nat)
    (h : List.Forall₂ StandsFor (Text.words text.toList) phases) :
    parse text path n = if (Text.words text.toList).length = n then .ok ⟨path, phases⟩
      else .error (.countMismatch path (Text.words text.toList).length n) := by
  rw [parse, readWords_eq_ok_iff.2 h, h.length_eq]
  by_cases hn : phases.length = n
  · rw [if_pos hn]
    simp [bind, Except.bind, hn, pure, Except.pure]
  · rw [if_neg hn]
    simp [bind, Except.bind, hn, throw, throwThe, MonadExceptOf.throw]

theorem stands_of_parse {text : String} {h : Hint} (hparse : parse text path n = .ok h) :
    h.path = path ∧ h.size = n ∧ List.Forall₂ StandsFor (Text.words text.toList) h.phases := by
  rw [parse, bind_eq_ok_iff] at hparse
  obtain ⟨phases, hread, hcount⟩ := hparse
  by_cases hn : phases.length = n
  · rw [if_pos hn] at hcount
    cases hcount
    exact ⟨rfl, hn, readWords_eq_ok_iff.1 hread⟩
  · rw [if_neg hn] at hcount
    cases hcount

/-! ## Counting -/

theorem count_eq_countP (h : List.Forall₂ StandsFor words phases) (p : Phase) :
    phases.count p = words.countP fun word => StandsFor word p := by
  induction h with
  | nil => rfl
  | @cons word q words phases hq _ ih =>
    have hiff : StandsFor word p ↔ q = p := ⟨hq.unique, fun h => h ▸ hq⟩
    rw [List.count_cons, List.countP_cons, ih]
    simp [hiff]

theorem count_add_count_add_count (phases : List Phase) :
    phases.count .positive + phases.count .negative + phases.count .unset = phases.length := by
  induction phases with
  | nil => rfl
  | cons p phases ih =>
    cases p <;> simp <;> omega

/-- **The reader accepts exactly its grammar and reports the first fault.** -/
theorem parse_accepts_lexicon (text : String) (path : Path) (n : Nat) :
    let tokens := Text.words text.toList
    (∀ ws, tokens = ws ↔ Text.Spaced ws text.toList) ∧
    (∀ phases, List.Forall₂ StandsFor tokens phases →
      parse text path n = if tokens.length = n then .ok ⟨path, phases⟩
        else .error (.countMismatch path tokens.length n)) ∧
    (∀ i, (hi : i < tokens.length) → (∀ p, ¬ StandsFor tokens[i] p) →
      (∀ j, (hj : j < i) → ∃ p, StandsFor tokens[j] p) →
      parse text path n = .error (.badToken (String.ofList tokens[i]) i path)) ∧
    ∀ h, parse text path n = .ok h →
      h.summary.positive = (tokens.countP fun word => StandsFor word .positive) ∧
      h.summary.negative = (tokens.countP fun word => StandsFor word .negative) ∧
      h.summary.unset = (tokens.countP fun word => StandsFor word .unset) ∧
      h.summary.positive + h.summary.negative + h.summary.unset = h.summary.total ∧
      h.summary.total = n := by
  refine ⟨fun ws => Text.words_eq_iff, fun phases => parse_of_stands path n, ?_, ?_⟩
  · intro i hi hbad hgood
    rw [parse, readWords_eq_error hi hbad hgood, Nat.zero_add]
    rfl
  · intro h hparse
    obtain ⟨-, hsize, hstands⟩ := stands_of_parse hparse
    exact ⟨count_eq_countP hstands _, count_eq_countP hstands _, count_eq_countP hstands _,
      count_add_count_add_count h.phases, hsize⟩

/-- Words in any case between blanks of any kind, too many of them, and a word with a Kelvin sign in
place of a `k`. -/
theorem parse_accepts_lexicon_kelvin :
    let hint : Hint := ⟨.ofText "hint.txt", [.positive, .unset, .negative]⟩
    parse "\u2003True SKIP\n-1" hint.path 3 = .ok hint ∧ hint.summary.total = 3 ∧
      parse "\u2003True SKIP\n-1" hint.path 2 = .error (.countMismatch hint.path 3 2) ∧
      parse "t s\u212Aip 0 maybe" hint.path 3 = .error (.badToken "s\u212Aip" 1 hint.path) := by
  intro hint
  have hread : readWords hint.path 0 (Text.words "\u2003True SKIP\n-1".toList) =
      .ok hint.phases := by decide +kernel
  have hstands := readWords_eq_ok_iff.1 hread
  obtain ⟨-, hwords, -, hcounts⟩ := parse_accepts_lexicon "\u2003True SKIP\n-1" hint.path 3
  have hparse := hwords _ hstands
  refine ⟨hparse, (hcounts hint hparse).2.2.2.2,
    (parse_accepts_lexicon _ hint.path 2).2.1 _ hstands,
    (parse_accepts_lexicon _ hint.path 3).2.2.1 1 (by decide +kernel) ?_ ?_⟩
  · intro p
    cases p <;> decide +kernel
  · intro j hj
    obtain rfl := Nat.lt_one_iff.1 hj
    have hfirst : StandsFor ['t'] .positive := by decide +kernel
    exact ⟨.positive, hfirst⟩

end Polarity.Hint
