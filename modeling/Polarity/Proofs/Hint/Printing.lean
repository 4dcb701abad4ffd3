import Polarity.Prediction.Generate
import Polarity.Proofs.Hint.Grammar

/-!
# Hints that are printed

**Theorem (`printed_hint_reads_back`).** A printed hint reads back as the phases it was printed from,
be they printed as the marks of a hint file or as the signs of diagnostics.

Both ways to print a phase make a word that stands for it, so all that matters is that the words of
the text are these words. Marks with single blanks between them are a row (`words_fileText`), and in
any other layout the words are found as well.

**The normal form** of a hint is its text as a hint file. It reads back as the hint it was made of,
so a second pass through reader and printer changes nothing.
-/

namespace Polarity.Hint

variable {path : Path} {phases : List Phase}

/-- The hint as the file that would be generated for its phases. -/
def normalForm (h : Hint) : String := (Generated.mk h.phases.toArray 0).text

theorem standsFor_mark (p : Phase) : StandsFor [p.mark] p := by
  cases p <;> decide +kernel

theorem standsFor_text (p : Phase) : StandsFor p.text.toList p := by
  cases p <;> decide +kernel

theorem isWord_mark (p : Phase) : Text.IsWord [p.mark] :=
  Text.isWord_singleton (by cases p <;> decide)

/-- Words that stand for phases one by one are read as these phases. -/
theorem parse_of_words {text : String} {word : Phase → List Char}
    (hword : ∀ p, StandsFor (word p) p) (htext : Text.words text.toList = phases.map word) :
    parse text path phases.length = .ok ⟨path, phases⟩ := by
  have hstands : List.Forall₂ StandsFor (Text.words text.toList) phases := by
    rw [htext]
    exact List.forall₂_map_left_iff.2 (List.forall₂_same.2 fun p _ => hword p)
  rw [parse_of_stands path _ hstands, htext, List.length_map, if_pos rfl]

theorem toList_fileText (phases : List Phase) :
    (fileText phases).toList = Text.row (phases.map fun p => [p.mark]) := by
  rw [fileText, String.toList_ofList]
  induction phases with
  | nil => rfl
  | cons p phases ih =>
    cases phases with
    | nil => rfl
    | cons q phases =>
      have hrow : Text.row ((p :: q :: phases).map fun p => [p.mark]) =
          p.mark :: ' ' :: Text.row ((q :: phases).map fun p => [p.mark]) :=
        Text.row_cons_cons _ _ _
      rw [hrow, ← ih]
      rfl

theorem words_fileText (phases : List Phase) :
    Text.words (fileText phases).toList = phases.map fun p => [p.mark] := by
  rw [toList_fileText]
  refine Text.words_row ?_
  simp only [List.forall_mem_map]
  exact fun p _ => isWord_mark p

/-- **A hint file reads back as the phases it was printed from.** -/
theorem parse_fileText (path : Path) (phases : List Phase) :
    parse (fileText phases) path phases.length = .ok ⟨path, phases⟩ :=
  parse_of_words standsFor_mark (words_fileText phases)

theorem parse_normalForm {text : String} {n : Nat} {h : Hint} (hparse : parse text path n = .ok h) :
    parse h.normalForm path n = .ok h := by
  obtain ⟨rfl, rfl, -⟩ := stands_of_parse hparse
  exact parse_fileText h.path h.phases

/-- **Printed hints read back.** The file that is generated for any phases reads back as these
phases, and so do the signs of the phases with any blanks between them. Printing a hint that was read
gives a text that reads as the same hint and is printed as the same text again. -/
theorem printed_hint_reads_back (path : Path) :
    (∀ phases skipped, parse (Generated.mk phases.toArray skipped).text path phases.length =
      .ok ⟨path, phases⟩) ∧
    (∀ (phases : List Phase) (text : String),
      Text.Spaced (phases.map fun p => p.text.toList) text.toList →
      parse text path phases.length = .ok ⟨path, phases⟩) ∧
    ∀ text n h, parse text path n = .ok h →
      parse h.normalForm path n = .ok h ∧
      ∀ h', parse h.normalForm path n = .ok h' → h'.normalForm = h.normalForm := by
  refine ⟨fun phases _ => parse_fileText path phases, fun phases text hspaced => ?_,
    fun text n h hparse => ⟨parse_normalForm hparse, fun h' hparse' => ?_⟩⟩
  · exact parse_of_words standsFor_text hspaced.words_eq
  · rw [parse_normalForm hparse, Except.ok.injEq] at hparse'
    rw [hparse']

/-- Signs on several lines, and a file that mixes spellings with its normal form. -/
theorem printed_hint_reads_back_lines :
    let hint : Hint := ⟨.ofText "hint.txt", [.positive, .negative, .unset]⟩
    parse "+1\n\n-1 \td\n" hint.path 3 = .ok hint ∧ parse "TRUE F *" hint.path 3 = .ok hint ∧
      hint.normalForm = "1 0 d" ∧ parse "1 0 d" hint.path 3 = .ok hint := by
  intro hint
  obtain ⟨-, hsigns, hnormal⟩ := printed_hint_reads_back hint.path
  have hspaced : Text.Spaced (hint.phases.map fun p => p.text.toList)
      "+1\n\n-1 \td\n".toList := Text.words_eq_iff.1 (by decide +kernel)
  have hparse : parse "TRUE F *" hint.path 3 = .ok hint := by decide +kernel
  have hform : hint.normalForm = "1 0 d" := by decide +kernel
  exact ⟨hsigns _ _ hspaced, hparse, hform, hform ▸ (hnormal _ _ _ hparse).1⟩

end Polarity.Hint
