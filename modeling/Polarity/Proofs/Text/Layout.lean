import Mathlib.Data.List.DropRight
import Polarity.Text.Layout

/-!
# Lines and words, seen from their first character

A line that is trimmed starts with no blank, and a text that starts with no blank starts with its
first word. Lines have no newline in them, and words no blank.
-/

namespace Polarity

/-- Between the members at which a list is cut there are the others. -/
theorem mem_of_mem_splitOnP {α : Type} {p : α → Bool} {l piece : List α}
    (hpiece : piece ∈ l.splitOnP p) {a : α} (ha : a ∈ piece) : a ∈ l ∧ p a = false := by
  induction l generalizing piece with
  | nil =>
    rw [List.splitOnP_nil, List.mem_singleton] at hpiece
    simp [hpiece] at ha
  | cons first later ih =>
    rw [List.splitOnP_cons_eq_if_modifyHead] at hpiece
    cases hfirst : p first with
    | true =>
      have hcases : piece = [] ∨ piece ∈ later.splitOnP p := by simpa [hfirst] using hpiece
      rcases hcases with rfl | hpiece
      · cases ha
      · exact ⟨List.mem_cons_of_mem _ (ih hpiece ha).1, (ih hpiece ha).2⟩
    | false =>
      obtain ⟨head, others, hsplit⟩ := List.exists_cons_of_ne_nil (List.splitOnP_ne_nil p later)
      have hcases : piece = first :: head ∨ piece ∈ others := by
        simpa [hfirst, hsplit] using hpiece
      -- The first piece goes on from the first member, and the others are as before.
      rcases hcases with rfl | hpiece
      · rcases List.mem_cons.1 ha with rfl | ha
        · exact ⟨List.mem_cons_self, hfirst⟩
        · have hmem := ih (hsplit ▸ List.mem_cons_self) ha
          exact ⟨List.mem_cons_of_mem _ hmem.1, hmem.2⟩
      · have hmem := ih (hsplit ▸ List.mem_cons_of_mem _ hpiece) ha
        exact ⟨List.mem_cons_of_mem _ hmem.1, hmem.2⟩

namespace Text

variable {c : Char} {line text word : List Char}

theorem map_snd_numbered {α : Type} (first : Nat) (l : List α) :
    (numbered first l).map (·.2) = l := by
  rw [numbered, List.map_map]
  exact List.zipIdx_map_fst first l

theorem isBlank_of_head?_trim (h : (trim text).head? = some c) : isBlank c = false := by
  have hprefix : trim text <+: text.dropWhile isBlank := List.rdropWhile_prefix isBlank _
  have hhead := List.head?_dropWhile_not isBlank text
  obtain ⟨tail, htail⟩ := hprefix
  rw [← htail, List.head?_append, h] at hhead
  exact hhead

/-- A text that starts with no blank starts with its first word. -/
theorem words_cons (hc : isBlank c = false) (rest : List Char) :
    ∃ word later, words (c :: rest) = (c :: word) :: later := by
  unfold words
  obtain ⟨word, later, hsplit⟩ := List.exists_cons_of_ne_nil (List.splitOnP_ne_nil isBlank rest)
  refine ⟨word, later.filter (!·.isEmpty), ?_⟩
  simp [List.splitOnP_cons_eq_if_modifyHead, hc, hsplit]

theorem isBlank_of_mem_words (hword : word ∈ words text) (hc : c ∈ word) : isBlank c = false :=
  (mem_of_mem_splitOnP (List.mem_of_mem_filter hword) hc).2

theorem newline_not_mem_of_mem_words (hword : word ∈ words text) : '\n' ∉ word := fun hnewline =>
  absurd (isBlank_of_mem_words hword hnewline) (by decide)

theorem mem_of_mem_trim (hc : c ∈ trim text) : c ∈ text := by
  have hstart : trim text <+: text.dropWhile isBlank := List.rdropWhile_prefix isBlank _
  exact (List.dropWhile_sublist isBlank).subset (hstart.subset hc)

/-- A line is a piece between newlines, without the return at its end. -/
theorem exists_piece_of_mem_linesOfPieces {pieces : List (List Char)}
    (hline : line ∈ linesOfPieces pieces) : ∃ piece ∈ pieces, line ⊆ piece := by
  induction pieces with
  | nil => cases hline
  | cons piece later ih =>
    cases later with
    | nil =>
      rw [linesOfPieces] at hline
      split at hline
      · cases hline
      · exact ⟨piece, List.mem_cons_self, by simp [List.mem_singleton.1 hline]⟩
    | cons next later =>
      rw [linesOfPieces, List.mem_cons] at hline
      · rcases hline with rfl | hline
        · refine ⟨piece, List.mem_cons_self, ?_⟩
          unfold dropReturn
          split
          · exact List.dropLast_subset piece
          · exact List.Subset.refl piece
        · obtain ⟨other, hother, hsubset⟩ := ih hline
          exact ⟨other, List.mem_cons_of_mem piece hother, hsubset⟩
      · exact List.cons_ne_nil next later

theorem newline_not_mem_of_mem_lines (hline : line ∈ lines text) : '\n' ∉ line := by
  intro hnewline
  obtain ⟨piece, hpiece, hsubset⟩ := exists_piece_of_mem_linesOfPieces hline
  have hcut := (mem_of_mem_splitOnP hpiece (hsubset hnewline)).2
  simp at hcut

end Text

end Polarity
