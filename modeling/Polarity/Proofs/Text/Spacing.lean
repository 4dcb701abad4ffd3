import Mathlib.Data.List.Basic
import Polarity.Proofs.Text.Layout

/-!
# Texts with given words and lines

**Words.** A text is *spaced* from words when these stand in it in order, with blanks between any two
of them and perhaps at its ends. Each text is spaced from one sequence of words, which is the one
that `words` finds (`words_eq_iff`). How a text falls apart at a blank is all there is to it
(`words_append_blank`).

**Lines.** Lines without a line end in them are found again in the text in which each of them is
ended by a newline (`lines_ended`).

**Rows.** Words with single blanks between them make a line that trimming leaves alone and that has
just these words.
-/

namespace Polarity.Text

variable {c : Char} {gap line rest text word : List Char} {ls ws : List (List Char)}

/-! ## Words -/

/-- Blanks only. -/
def IsGap (gap : List Char) : Prop := ∀ c ∈ gap, isBlank c = true

/-- At least one character, and no blank. -/
structure IsWord (word : List Char) : Prop where
  ne_nil : word ≠ []
  not_blank : ∀ c ∈ word, isBlank c = false

theorem isWord_singleton (hc : isBlank c = false) : IsWord [c] where
  ne_nil := List.cons_ne_nil c []
  not_blank := List.forall_mem_singleton.2 hc

theorem IsWord.cons (hword : IsWord word) (hc : isBlank c = false) : IsWord (c :: word) where
  ne_nil := List.cons_ne_nil c word
  not_blank := List.forall_mem_cons.2 ⟨hc, hword.not_blank⟩

/-- The text is these words in order, with blanks around them and at least one blank between any
two of them. -/
inductive Spaced : List (List Char) → List Char → Prop
  | nil {gap : List Char} (hgap : IsGap gap) : Spaced [] gap
  | cons {gap word rest : List Char} {ws : List (List Char)} (hgap : IsGap gap)
      (hword : IsWord word) (hend : ∀ c ∈ rest.head?, isBlank c = true) (hrest : Spaced ws rest) :
      Spaced (word :: ws) (gap ++ word ++ rest)

theorem words_append_blank (hc : isBlank c = true) (before after : List Char) :
    words (before ++ c :: after) = words before ++ words after := by
  rw [words, List.splitOnP_append_cons before after hc, List.filter_append]
  rfl

theorem words_gap_append (hgap : IsGap gap) (rest : List Char) :
    words (gap ++ rest) = words rest := by
  induction gap with
  | nil => rfl
  | cons c gap ih =>
    have hc : isBlank c = true := hgap c List.mem_cons_self
    rw [List.cons_append, ← List.nil_append (c :: _), words_append_blank hc]
    exact ih fun d hd => hgap d (List.mem_cons_of_mem c hd)

theorem isBlank_of_isDigit (hc : c.isDigit = true) : isBlank c = false := by
  have hrange : 48 ≤ c.toNat ∧ c.toNat ≤ 57 := by
    simpa [Char.isDigit, UInt32.le_iff_toNat_le] using hc
  simp [isBlank, blanks]
  omega

theorem isBlank_space : isBlank ' ' = true := by decide

theorem words_space_cons (text : List Char) : words (' ' :: text) = words text := by
  have hgap : IsGap [' '] := by simp [IsGap, isBlank_space]
  exact words_gap_append hgap text

theorem IsWord.words_eq (hword : IsWord word) : words word = [word] := by
  have hne := hword.ne_nil
  rw [words, List.splitOnP_eq_singleton hword.not_blank]
  simpa using hne

/-- A word goes as far as the next blank. -/
theorem IsWord.words_append (hword : IsWord word) (hend : ∀ c ∈ rest.head?, isBlank c = true) :
    words (word ++ rest) = word :: words rest := by
  cases rest with
  | nil => rw [List.append_nil, hword.words_eq]; rfl
  | cons c rest =>
    have hc : isBlank c = true := hend c rfl
    have hgap : IsGap [c] := by simpa [IsGap] using hc
    have hrest : words (c :: rest) = words rest := words_gap_append hgap rest
    rw [words_append_blank hc, hword.words_eq, hrest]
    rfl

theorem Spaced.words_eq (h : Spaced ws text) : words text = ws := by
  induction h with
  | nil hgap =>
    have h := words_gap_append hgap []
    rw [List.append_nil] at h
    rw [h]
    rfl
  | cons hgap hword hend _ ih =>
    rw [List.append_assoc, words_gap_append hgap, hword.words_append hend, ih]

/-- A text that starts with no blank starts with a word that goes up to a blank or the end. -/
theorem exists_word_append (hc : isBlank c = false) (later : List Char) :
    ∃ word rest, c :: later = word ++ rest ∧ IsWord word ∧
      ∀ d ∈ rest.head?, isBlank d = true := by
  refine ⟨(c :: later).takeWhile (!isBlank ·), (c :: later).dropWhile (!isBlank ·),
    List.takeWhile_append_dropWhile.symm, ⟨by simp [hc], fun d hd => ?_⟩, fun d hd => ?_⟩
  · simpa using List.mem_takeWhile_imp hd
  · have h := List.head?_dropWhile_not (!isBlank ·) (c :: later)
    rw [Option.mem_def.1 hd] at h
    simpa using h

/-- Every text is spaced from its words. -/
theorem spaced_words (text : List Char) : Spaced (words text) text := by
  -- On the length: behind the first word there is a shorter text.
  induction hlen : text.length using Nat.strong_induction_on generalizing text with
  | h n ih =>
    have hgap : IsGap (text.takeWhile isBlank) := fun c hc => List.mem_takeWhile_imp hc
    have hsplit := List.takeWhile_append_dropWhile (p := isBlank) (l := text)
    have hhead := List.head?_dropWhile_not isBlank text
    cases hbody : text.dropWhile isBlank with
    | nil =>
      rw [hbody, List.append_nil] at hsplit
      have h := Spaced.nil (hsplit ▸ hgap)
      rwa [h.words_eq]
    | cons c later =>
      rw [hbody] at hsplit hhead
      obtain ⟨word, rest, hword_rest, hword, hend⟩ := exists_word_append hhead later
      rw [hword_rest, ← List.append_assoc] at hsplit
      have hshorter : rest.length < n := by
        have hpos := List.length_pos_iff.2 hword.ne_nil
        rw [← hlen, ← hsplit, List.length_append, List.length_append]
        omega
      have h := Spaced.cons hgap hword hend (ih rest.length hshorter rest rfl)
      rw [hsplit] at h
      rwa [h.words_eq]

/-- **The words of a text are those it is spaced from.** -/
theorem words_eq_iff : words text = ws ↔ Spaced ws text := by
  constructor
  · rintro rfl
    exact spaced_words text
  · exact Spaced.words_eq

/-! ## Trimming -/

/-- A text with no blank at its ends is not changed by trimming. -/
theorem trim_eq_self (hhead : ∀ c ∈ text.head?, isBlank c = false)
    (hlast : ∀ c ∈ text.getLast?, isBlank c = false) : trim text = text := by
  have hdrop {l : List Char} (hl : ∀ c ∈ l.head?, isBlank c = false) : l.dropWhile isBlank = l := by
    cases l with
    | nil => rfl
    | cons c rest => rw [List.dropWhile_cons_of_neg (by simp [hl c rfl])]
  rw [trim, hdrop hhead, hdrop (by simpa using hlast), List.reverse_reverse]

/-! ## Lines -/

/-- The characters can stand on one line that is ended by a newline. -/
structure IsLine (line : List Char) : Prop where
  not_newline : '\n' ∉ line
  not_return : line.getLast? ≠ some '\r'

/-- A newline ends a line, and drops the carriage return in front of it. -/
theorem lines_append_newline (hline : '\n' ∉ line) (rest : List Char) :
    lines (line ++ '\n' :: rest) = dropReturn line :: lines rest := by
  have hsplit : (line ++ '\n' :: rest).splitOnP (· == '\n') =
      line :: rest.splitOnP (· == '\n') := by
    refine List.splitOnP_append_cons_of_forall_mem (fun c hc => ?_) '\n' rfl rest
    have hne : c ≠ '\n' := fun h => hline (h ▸ hc)
    simpa using hne
  obtain ⟨piece, pieces, hpieces⟩ :=
    List.exists_cons_of_ne_nil (List.splitOnP_ne_nil (· == '\n') rest)
  rw [lines, lines, hsplit, hpieces, linesOfPieces]
  simp

theorem IsLine.lines_append (hline : IsLine line) (rest : List Char) :
    lines (line ++ '\n' :: rest) = line :: lines rest := by
  have hdrop : dropReturn line = line := if_neg hline.not_return
  rw [lines_append_newline hline.not_newline, hdrop]

theorem lines_ended (h : ∀ line ∈ ls, IsLine line) : lines (ls.flatMap (· ++ ['\n'])) = ls := by
  induction ls with
  | nil => rfl
  | cons line ls ih =>
    obtain ⟨hline, hls⟩ := List.forall_mem_cons.1 h
    rw [List.flatMap_cons, List.append_assoc, List.singleton_append, hline.lines_append, ih hls]

/-! ## Rows -/

/-- The words with one blank between any two of them. -/
def row (ws : List (List Char)) : List Char := [' '].intercalate ws

theorem row_cons_cons (first second : List Char) (ws : List (List Char)) :
    row (first :: second :: ws) = first ++ ' ' :: row (second :: ws) := by
  simp [row]

theorem mem_row (hc : c ∈ row ws) : c = ' ' ∨ ∃ word ∈ ws, c ∈ word := by
  induction ws with
  | nil => cases hc
  | cons first ws ih =>
    cases ws with
    | nil => exact Or.inr ⟨first, List.mem_cons_self, by simpa [row] using hc⟩
    | cons second ws =>
      rw [row_cons_cons, List.mem_append, List.mem_cons] at hc
      rcases hc with hc | hc | hc
      · exact Or.inr ⟨first, List.mem_cons_self, hc⟩
      · exact Or.inl hc
      · refine (ih hc).imp_right fun ⟨word, hword, hmem⟩ => ?_
        exact ⟨word, List.mem_cons_of_mem first hword, hmem⟩

/-- The words of a row are those it was made of. -/
theorem words_row (h : ∀ word ∈ ws, IsWord word) : words (row ws) = ws := by
  induction ws with
  | nil => rfl
  | cons first ws ih =>
    obtain ⟨hfirst, hws⟩ := List.forall_mem_cons.1 h
    cases ws with
    | nil => rw [row, List.intercalate_singleton, hfirst.words_eq]
    | cons second ws =>
      have hend : ∀ c ∈ (' ' :: row (second :: ws)).head?, isBlank c = true := by
        simp [isBlank_space]
      rw [row_cons_cons, hfirst.words_append hend, words_space_cons, ih hws]

theorem isBlank_of_head?_row (h : ∀ word ∈ ws, IsWord word) (hc : c ∈ (row ws).head?) :
    isBlank c = false := by
  cases ws with
  | nil => cases hc
  | cons first ws =>
    have hfirst := h first List.mem_cons_self
    cases first with
    | nil => exact absurd rfl hfirst.ne_nil
    | cons d first =>
      obtain rfl : d = c := by simpa [row] using hc
      exact hfirst.not_blank d List.mem_cons_self

theorem isBlank_of_getLast?_row (h : ∀ word ∈ ws, IsWord word) (hc : c ∈ (row ws).getLast?) :
    isBlank c = false := by
  induction ws with
  | nil => cases hc
  | cons first ws ih =>
    obtain ⟨hfirst, hws⟩ := List.forall_mem_cons.1 h
    cases ws with
    | nil =>
      rw [row, List.intercalate_singleton] at hc
      exact hfirst.not_blank c (List.mem_of_getLast? hc)
    | cons second ws =>
      refine ih hws ?_
      have hne : row (second :: ws) ≠ [] := by
        have hsecond := (hws second List.mem_cons_self).ne_nil
        cases second with
        | nil => exact absurd rfl hsecond
        | cons d second => simp [row]
      rw [row_cons_cons, Option.mem_def, List.getLast?_append_of_ne_nil _ (List.cons_ne_nil _ _),
        List.getLast?_cons_of_ne_nil hne] at hc
      exact hc

theorem trim_row (h : ∀ word ∈ ws, IsWord word) : trim (row ws) = row ws :=
  trim_eq_self (fun _ => isBlank_of_head?_row h) fun _ => isBlank_of_getLast?_row h

theorem isLine_row (h : ∀ word ∈ ws, IsWord word) : IsLine (row ws) where
  not_newline hc := by
    rcases mem_row hc with hblank | ⟨word, hword, hmem⟩
    · exact absurd hblank (by decide)
    · have hnot := (h word hword).not_blank _ hmem
      revert hnot
      decide
  not_return hc := by
    have hnot := isBlank_of_getLast?_row h hc
    revert hnot
    decide

end Polarity.Text
