import Mathlib.Logic.Relation
import Polarity.Proofs.Text.Spacing

/-!
# Texts as sequences of lines

**Lines.** A text is *lined* with lines when these stand in it in order, each with a line end behind
it, which the last one can do without. Each text is lined with one sequence of lines, which is the
one that `lines` finds (`lines_eq_iff`). So two texts of which the first ends with a line end have
their lines one after the other (`lines_append`), and lines are numbered as they stand
(`mem_numbered_iff`).

**Other layouts.** A blank line that is put in between two lines leaves the lines alone that are not
blank (`filter_lines_of_padded`), and a carriage return before each newline leaves all lines alone
(`lines_withReturns`).
-/

namespace Polarity.Text

variable {back front gap line text other : List Char} {ls ms : List (List Char)} {n : Nat}

/-! ## Lined texts -/

/-- The text is these lines in order. A line ends with a newline, or with a carriage return and a
newline, and the last line need not end. -/
inductive Lined : List (List Char) → List Char → Prop
  | nil : Lined [] []
  | last {line : List Char} (hne : line ≠ []) (hline : '\n' ∉ line) : Lined [line] line
  | newline {line rest : List Char} {ls : List (List Char)} (hline : IsLine line)
      (hrest : Lined ls rest) : Lined (line :: ls) (line ++ '\n' :: rest)
  | returned {line rest : List Char} {ls : List (List Char)} (hline : '\n' ∉ line)
      (hrest : Lined ls rest) : Lined (line :: ls) (line ++ '\r' :: '\n' :: rest)

theorem lines_append_return (hline : '\n' ∉ line) (rest : List Char) :
    lines (line ++ '\r' :: '\n' :: rest) = line :: lines rest := by
  have hreturned : '\n' ∉ line ++ ['\r'] := by simpa using hline
  have hdrop : dropReturn (line ++ ['\r']) = line := by simp [dropReturn]
  have h := lines_append_newline hreturned rest
  rwa [hdrop, List.append_assoc] at h

theorem lines_of_not_newline (hne : line ≠ []) (hline : '\n' ∉ line) : lines line = [line] := by
  have hsplit : line.splitOnP (· == '\n') = [line] := by
    refine List.splitOnP_eq_singleton fun c hc => ?_
    have hc' : c ≠ '\n' := fun h => hline (h ▸ hc)
    simpa using hc'
  rw [lines, hsplit, linesOfPieces, if_neg (by simpa using hne)]

theorem Lined.lines_eq (h : Lined ls text) : lines text = ls := by
  induction h with
  | nil => rfl
  | last hne hline => exact lines_of_not_newline hne hline
  | newline hline _ ih => rw [hline.lines_append, ih]
  | returned hline _ ih => rw [lines_append_return hline, ih]

theorem exists_lined (text : List Char) : ∃ ls, Lined ls text := by
  -- On the length: behind the first newline there is a shorter text.
  induction hlen : text.length using Nat.strong_induction_on generalizing text with
  | h k ih =>
    by_cases hnewline : '\n' ∈ text
    · obtain ⟨line, rest, rfl, hline⟩ := List.eq_append_cons_of_mem hnewline
      have hshorter : rest.length < k := by
        rw [← hlen, List.length_append, List.length_cons]
        omega
      obtain ⟨ls, hls⟩ := ih rest.length hshorter rest rfl
      by_cases hreturn : line.getLast? = some '\r'
      · obtain ⟨start, rfl⟩ := List.getLast?_eq_some_iff.1 hreturn
        have hstart : '\n' ∉ start := fun h => hline (List.mem_append_left _ h)
        exact ⟨start :: ls, by simpa using Lined.returned hstart hls⟩
      · exact ⟨line :: ls, .newline ⟨hline, hreturn⟩ hls⟩
    · by_cases hne : text = []
      · exact ⟨[], hne ▸ .nil⟩
      · exact ⟨[text], .last hne hnewline⟩

/-- **The lines of a text are those it is lined with.** -/
theorem lines_eq_iff : lines text = ls ↔ Lined ls text := by
  constructor
  · rintro rfl
    obtain ⟨ls, hls⟩ := exists_lined text
    rwa [hls.lines_eq]
  · exact Lined.lines_eq

/-! ## Numbers of lines -/

/-- The line has this number among the lines, which are counted from one. -/
def LineAt (ls : List (List Char)) (n : Nat) (line : List Char) : Prop :=
  ∃ i, ls[i]? = some line ∧ n = i + 1

theorem LineAt.unique {line' : List Char} (h : LineAt ls n line) (h' : LineAt ls n line') :
    line = line' := by
  obtain ⟨i, hi, rfl⟩ := h
  obtain ⟨j, hj, hij⟩ := h'
  obtain rfl : i = j := by omega
  exact Option.some.inj (hi.symm.trans hj)

theorem mem_numbered_iff : (n, line) ∈ numbered 1 ls ↔ LineAt ls n line := by
  simp only [numbered, List.mem_map, List.mem_zipIdx_iff_le_and_getElem?_sub, Prod.exists,
    Prod.mk.injEq, LineAt]
  constructor
  · rintro ⟨a, k, ⟨hk, ha⟩, rfl, rfl⟩
    exact ⟨k - 1, ha, by omega⟩
  · rintro ⟨i, hi, rfl⟩
    exact ⟨line, i + 1, ⟨by omega, hi⟩, rfl, rfl⟩

theorem pairwise_numbered (ls : List (List Char)) :
    (numbered 1 ls).Pairwise fun k l => k.1 < l.1 := by
  have hnumbers : (numbered 1 ls).map Prod.fst = List.range' 1 ls.length := by
    rw [numbered, List.map_map]
    exact List.zipIdx_map_snd 1 ls
  exact List.pairwise_map.1 (hnumbers ▸ List.pairwise_lt_range')

/-! ## Blank lines -/

theorem trim_eq_nil_iff : trim line = [] ↔ IsGap line := by
  have hdrop {l : List Char} : l.dropWhile isBlank = [] ↔ IsGap l := List.dropWhile_eq_nil_iff
  rw [trim, List.reverse_eq_nil_iff, hdrop]
  constructor
  · intro h c hc
    -- A blank at the front is dropped at once, and any other together with the end.
    rw [← List.takeWhile_append_dropWhile (p := isBlank) (l := line), List.mem_append] at hc
    rcases hc with hc | hc
    · exact List.mem_takeWhile_imp hc
    · exact h c (List.mem_reverse.2 hc)
  · intro h
    rw [hdrop.2 h]
    simp [IsGap]

theorem subset_of_mem_lines (hline : line ∈ lines text) : line ⊆ text := by
  obtain ⟨piece, hpiece, hsubset⟩ := exists_piece_of_mem_linesOfPieces hline
  exact fun c hc => (mem_of_mem_splitOnP hpiece (hsubset hc)).1

/-- The text is empty or ends with a newline, so that what follows it starts a line. -/
def IsEnded (text : List Char) : Prop := ∀ c ∈ text.getLast?, c = '\n'

theorem Lined.append (hfront : Lined ls front) (hended : IsEnded front) (hback : Lined ms back) :
    Lined (ls ++ ms) (front ++ back) := by
  -- What stands behind a line end is ended if all of the text is.
  have hlater {before rest : List Char} (h : IsEnded (before ++ '\n' :: rest)) : IsEnded rest := by
    intro c hc
    refine h c ?_
    rw [Option.mem_def] at hc ⊢
    simp [List.getLast?_cons, hc]
  induction hfront with
  | nil => exact hback
  | last hne hline =>
    have hlast := hended _ (List.getLast?_eq_some_getLast hne)
    exact absurd (hlast ▸ List.getLast_mem hne) hline
  | newline hline _ ih =>
    rw [List.append_assoc]
    exact .newline hline (ih (hlater hended))
  | @returned line rest _ hline _ ih =>
    rw [List.append_assoc]
    have hended' : IsEnded ((line ++ ['\r']) ++ '\n' :: rest) := by simpa using hended
    exact .returned hline (ih (hlater hended'))

/-- **Behind a line end other lines follow.** -/
theorem lines_append (hended : IsEnded front) (back : List Char) :
    lines (front ++ back) = lines front ++ lines back :=
  ((lines_eq_iff.1 rfl).append hended (lines_eq_iff.1 rfl)).lines_eq

/-- The second text is the first one with blank lines put in, in front of one of its lines or behind
a last line that ends. -/
inductive Padded : List Char → List Char → Prop
  | intro {front gap back : List Char} (hended : IsEnded front) (hgap : IsGap gap) :
      Padded (front ++ back) (front ++ gap ++ '\n' :: back)

/-- **Blank lines are all that is put in.** -/
theorem filter_lines_of_padded (h : Padded text other) :
    (lines other).filter (fun line => !(trim line).isEmpty) =
      (lines text).filter fun line => !(trim line).isEmpty := by
  obtain @⟨front, gap, back, hended, hgap⟩ := h
  have hblank : IsGap (gap ++ ['\n']) := by
    intro c hc
    rcases List.mem_append.1 hc with hc | hc
    · exact hgap c hc
    · rw [List.mem_singleton.1 hc]
      decide
  have hnone : (lines (gap ++ ['\n'])).filter (fun line => !(trim line).isEmpty) = [] := by
    rw [List.filter_eq_nil_iff]
    intro line hline
    have hline : IsGap line := fun c hc => hblank c (subset_of_mem_lines hline hc)
    simp [trim_eq_nil_iff.2 hline]
  have hother : front ++ gap ++ '\n' :: back = front ++ ((gap ++ ['\n']) ++ back) := by simp
  have hnewline : IsEnded (gap ++ ['\n']) := by simp [IsEnded]
  rw [hother, lines_append hended, lines_append hnewline, lines_append hended, List.filter_append,
    List.filter_append, List.filter_append, hnone, List.nil_append]

/-! ## Carriage returns -/

/-- The text with a carriage return in front of each newline that has none. -/
def withReturns : List Char → List Char
  | [] => []
  | '\r' :: '\n' :: rest => '\r' :: '\n' :: withReturns rest
  | '\n' :: rest => '\r' :: '\n' :: withReturns rest
  | c :: rest => c :: withReturns rest

theorem withReturns_cons {c : Char} {rest : List Char} (hc : c ≠ '\n')
    (hjoin : c = '\r' → rest.head? ≠ some '\n') :
    withReturns (c :: rest) = c :: withReturns rest := by
  rw [withReturns.eq_def]
  split
  · contradiction
  · next heq =>
    obtain ⟨rfl, rfl⟩ := List.cons.inj heq
    exact absurd rfl (hjoin rfl)
  · next heq => exact absurd (List.cons.inj heq).1 hc
  · next heq =>
    obtain ⟨rfl, rfl⟩ := List.cons.inj heq
    rfl

/-- Nothing is put in within a line. -/
theorem withReturns_append {rest : List Char} (hline : '\n' ∉ line)
    (hjoin : line.getLast? = some '\r' → rest.head? ≠ some '\n') :
    withReturns (line ++ rest) = line ++ withReturns rest := by
  induction line with
  | nil => rfl
  | cons c line ih =>
    rw [List.mem_cons, not_or] at hline
    obtain ⟨hc, hline⟩ := hline
    rw [List.cons_append, withReturns_cons (Ne.symm hc), ih hline, List.cons_append]
    · intro hlast
      exact hjoin (by simp [List.getLast?_cons, hlast])
    · rintro rfl
      cases line with
      | nil => exact hjoin rfl
      | cons d line => simpa using fun h : d = '\n' => hline (h ▸ List.mem_cons_self)

theorem Lined.withReturns (h : Lined ls text) : Lined ls (withReturns text) := by
  induction h with
  | nil => exact .nil
  | @last line hne hline =>
    have hsame : Text.withReturns line = line := by
      have hend := @withReturns_append line [] hline nofun
      simpa [Text.withReturns] using hend
    rw [hsame]
    exact .last hne hline
  | newline hline _ ih =>
    rw [withReturns_append hline.not_newline fun h => absurd h hline.not_return]
    exact .returned hline.not_newline ih
  | returned hline _ ih =>
    rw [withReturns_append hline fun _ => by simp]
    exact .returned hline ih

/-- **A carriage return in front of a newline belongs to the line end.** -/
theorem lines_withReturns (text : List Char) : lines (withReturns text) = lines text :=
  (lines_eq_iff.1 rfl).withReturns.lines_eq

end Polarity.Text
