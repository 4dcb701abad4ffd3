import Polarity.Proofs.Formula.Grammar
import Polarity.Proofs.Text.Spacing

/-!
# Formulas that are printed

**Theorem (`printed_reads_back`).** A printed formula reads back as itself.

A formula is printed as rows of numerals: the header, and for each clause the numbers of its literals
and a zero (`rows`). The lines of the text are these rows, none of them looks like a comment or like
the end of the file, and their words are the numerals (`headline_printed`, `tokens_printed`). So the
text is grammatical with the numbers of the formula, and cut at the zeros they are its clauses
(`clausesOf_numbers`).

Two formulas with one text have the same header and the same numbers, as a numeral has one value.
This does not go through the reader, which cannot count more clauses than a 64-bit word can.
-/

namespace Polarity

/-! ## Numbers of literals -/

/-- The variable counted from one, with the sign of the literal. -/
def Literal.number (l : Literal) : Int :=
  if l.positive then l.var.index + 1 else -(l.var.index + 1)

/-- The numbers of the literals, and the zero at the end. -/
def Clause.numbers (c : Clause) : List Int := c.map Literal.number ++ [0]

/-- The numbers that follow the header. -/
def Formula.numbers (f : Formula) : List Int := f.clauses.flatMap Clause.numbers

variable {l : Literal} {c : Clause} {f g : Formula} {t : Int} {n : Nat}

theorem Literal.number_ne_zero (l : Literal) : l.number ≠ 0 := by
  unfold number
  split <;> omega

theorem Literal.natAbs_number (l : Literal) : l.number.natAbs = l.var.index + 1 := by
  unfold number
  split <;> omega

theorem Literal.toDimacs_eq (h : l.var.index < Variable.limit) : l.toDimacs = .ok l.number := by
  have hlimit : Variable.limit = 0x7FFFFFFF := rfl
  have hmod : Int.bmod l.var.index 0x100000000 = l.var.index :=
    Int.bmod_eq_of_le_mul_two (by omega) (by omega)
  have hle : (l.var.index : Int) + 1 ≤ Numeral.int32 := by
    have : Numeral.int32 = 0x7FFFFFFF := rfl
    omega
  unfold toDimacs number
  rw [hmod]
  simp only [hle, if_true]

namespace Formula

theorem literalOf_number (l : Literal) : literalOf l.number = l := by
  obtain ⟨⟨i⟩, positive⟩ := l
  cases positive with
  | true =>
    have hpos : (0 : Int) < i + 1 := by omega
    have habs : ((i : Int) + 1).natAbs - 1 = i := by omega
    simp [literalOf, Literal.number, hpos, habs]
  | false =>
    have hneg : ¬ (0 : Int) < -(i + 1) := by omega
    have habs : (-((i : Int) + 1)).natAbs - 1 = i := by omega
    simp only [literalOf, Literal.number, Bool.false_eq_true, if_false, habs, hneg, decide_false]

theorem zero_not_mem_map_number (c : Clause) : 0 ∉ c.map Literal.number := by
  intro h
  obtain ⟨l, -, hl⟩ := List.mem_map.1 h
  exact l.number_ne_zero hl

theorem splitOn_numbers (f : Formula) :
    f.numbers.splitOn 0 = f.clauses.map (·.map Literal.number) ++ [[]] := by
  unfold numbers
  induction f.clauses with
  | nil => rfl
  | cons c clauses ih =>
    rw [List.flatMap_cons, Clause.numbers, List.append_assoc, List.singleton_append,
      List.splitOn_append_cons_self_of_not_mem (zero_not_mem_map_number c), ih]
    rfl

/-- **Cut at the zeros, the numbers of a formula are its clauses.** -/
theorem clausesOf_numbers (f : Formula) : clausesOf f.numbers = .ok f.clauses := by
  have hclause (c : Clause) : (c.map Literal.number).map literalOf = c := by
    rw [List.map_map]
    exact List.map_id'' literalOf_number c
  rw [clausesOf_eq, splitOn_numbers, List.dropLast_concat, List.map_map]
  exact congrArg Except.ok (List.map_id'' hclause f.clauses)

theorem count_numbers (f : Formula) : f.numbers.count 0 = f.clauses.length := by
  have hclause (c : Clause) : (Clause.numbers c).count 0 = 1 := by
    rw [Clause.numbers, List.count_append,
      List.count_eq_zero_of_not_mem (zero_not_mem_map_number c)]
    rfl
  unfold numbers
  induction f.clauses with
  | nil => rfl
  | cons c clauses ih =>
    rw [List.flatMap_cons, List.count_append, hclause, ih, List.length_cons, Nat.add_comm]

theorem getLast?_numbers (f : Formula) : f.numbers = [] ∨ f.numbers.getLast? = some 0 := by
  unfold numbers
  cases f.clauses using List.reverseRecOn with
  | nil => exact Or.inl rfl
  | append_singleton earlier c => simp [Clause.numbers, ← List.append_assoc]

theorem mem_numbers (hf : f.WellFormed) (ht : t ∈ f.numbers) : t.natAbs ≤ f.vars := by
  obtain ⟨c, hc, ht⟩ := List.mem_flatMap.1 ht
  rw [Clause.numbers, List.mem_append, List.mem_map, List.mem_singleton] at ht
  rcases ht with ⟨l, hl, rfl⟩ | rfl
  · rw [Literal.natAbs_number]
    exact hf.var_lt c hc l hl
  · exact Nat.zero_le _

/-! ## Rows of numerals -/

/-- The decimal numeral of a number. -/
def numeral (t : Int) : List Char := (toString t).toList

/-- The words of the header. -/
def headerWords (f : Formula) : List (List Char) :=
  [['p'], ['c', 'n', 'f'], Nat.toDigits 10 f.vars, Nat.toDigits 10 f.clauses.length]

/-- The words of the lines of the printed formula. -/
def rows (f : Formula) : List (List (List Char)) :=
  f.headerWords :: f.clauses.map fun c => (Clause.numbers c).map numeral

/-- The printed formula. -/
def printed (f : Formula) : List Char := (f.rows.map Text.row).flatMap (· ++ ['\n'])

theorem clauseText_eq (h : ∀ l ∈ c, l.var.index < Variable.limit) :
    clauseText c = .ok (String.ofList (Text.row ((Clause.numbers c).map numeral) ++ ['\n'])) := by
  have hnumbers : c.mapM Literal.toDimacs = .ok (c.map Literal.number) :=
    mapM_eq_ok fun l hl => Literal.toDimacs_eq (h l hl)
  have hrow : (c.map Literal.number).flatMap (fun t => numeral t ++ [' ']) ++ ['0'] =
      Text.row ((Clause.numbers c).map numeral) := by
    unfold Clause.numbers
    induction c.map Literal.number with
    | nil => rfl
    | cons t later ih =>
      have hne : (later ++ [0]).map numeral ≠ [] := by simp
      rw [List.flatMap_cons, List.append_assoc, ih, List.cons_append, List.map_cons, Text.row,
        Text.row, List.intercalate_cons_of_ne_nil hne]
  have htext : String.join ((c.map Literal.number).map fun t => s!"{t} ") ++ "0\n" =
      String.ofList (Text.row ((Clause.numbers c).map numeral) ++ ['\n']) := by
    rw [← hrow]
    refine String.toList_injective ?_
    simp [String.toList_join, List.flatMap_map, numeral]
    rfl
  rw [clauseText, hnumbers, ← htext]
  rfl

theorem text_eq (hf : f.WellFormed) : f.text = .ok (String.ofList f.printed) := by
  have hclauses : f.clauses.mapM clauseText = .ok (f.clauses.map fun c =>
      String.ofList (Text.row ((Clause.numbers c).map numeral) ++ ['\n'])) :=
    mapM_eq_ok fun c hc => clauseText_eq fun l hl => (hf.var_lt c hc l hl).trans_le hf.vars_le
  rw [text, hclauses]
  refine congrArg Except.ok (String.toList_injective ?_)
  simp [printed, rows, headerWords, Text.row, String.toList_join, List.flatMap_map]
  rfl

/-! ## Lines and words of the printed formula -/

theorem isWord_of_spells {digits : List Char} (h : Numeral.Spells digits n) :
    Text.IsWord digits where
  ne_nil := h.ne_nil
  not_blank d hd := Text.isBlank_of_isDigit (h.isDigit d hd)

/-- A sign and digits have no blank between them. -/
theorem isWord_of_isSigned {limit : Nat} {text : List Char}
    (h : Numeral.IsSigned limit text t) : Text.IsWord text := by
  cases h with
  | natural h =>
    obtain ⟨digits, rfl | rfl, hspells, -⟩ := h
    · exact isWord_of_spells hspells
    · exact (isWord_of_spells hspells).cons (by decide)
  | negative hspells => exact (isWord_of_spells hspells).cons (by decide)

/-- The numerals of a formula are those that its numbers need. -/
theorem numbers_printed (hf : f.WellFormed) :
    Numbers f.vars (f.numbers.map numeral) f.numbers := by
  refine List.forall₂_map_left_iff.2 (List.forall₂_same.2 fun t ht => ?_)
  have hle := mem_numbers hf ht
  exact ⟨Numeral.isSigned_toString (hle.trans hf.vars_le), hle⟩

theorem isWord_of_mem_rows {row : List (List Char)} {word : List Char} (hrow : row ∈ f.rows)
    (hword : word ∈ row) : Text.IsWord word := by
  rcases List.mem_cons.1 hrow with rfl | hrow
  · have hletter : Text.IsWord ['p'] := Text.isWord_singleton (by decide)
    have hformat : Text.IsWord ['c', 'n', 'f'] :=
      ((Text.isWord_singleton (by decide)).cons (by decide)).cons (by decide)
    have hdigits (n : Nat) : Text.IsWord (Nat.toDigits 10 n) :=
      isWord_of_spells (Numeral.spells_toDigits n)
    simp only [headerWords, List.mem_cons, List.not_mem_nil, or_false] at hword
    rcases hword with rfl | rfl | rfl | rfl
    · exact hletter
    · exact hformat
    · exact hdigits _
    · exact hdigits _
  · obtain ⟨c, -, rfl⟩ := List.mem_map.1 hrow
    obtain ⟨t, -, rfl⟩ := List.mem_map.1 hword
    exact isWord_of_isSigned (Numeral.isSigned_toString (Nat.le_refl t.natAbs))

/-- A row of the printed formula is no comment and does not end the file. -/
theorem head?_row_of_mem_rows {row : List (List Char)} (hrow : row ∈ f.rows) :
    ∃ d rest, Text.row row = d :: rest ∧ d ≠ 'c' ∧ d ≠ '%' := by
  rcases List.mem_cons.1 hrow with rfl | hrow
  · exact ⟨'p', _, rfl, by decide, by decide⟩
  · obtain ⟨c, -, rfl⟩ := List.mem_map.1 hrow
    obtain ⟨t, later, hnumbers⟩ := List.exists_cons_of_ne_nil (l := Clause.numbers c) (by
      simp [Clause.numbers])
    have hsigned := Numeral.isSigned_toString (Nat.le_refl t.natAbs)
    obtain ⟨d, digits, hnumeral⟩ :=
      List.exists_cons_of_ne_nil (isWord_of_isSigned hsigned).ne_nil
    rw [hnumeral] at hsigned
    refine ⟨d, Text.row (digits :: later.map numeral), ?_, ?_⟩
    · rw [hnumbers, List.map_cons, numeral, hnumeral, Text.row, List.intercalate_cons_cons_left]
      rfl
    · rcases hsigned.head with hdigit | rfl | rfl
      · constructor <;> rintro rfl <;> exact absurd hdigit (by decide)
      · decide
      · decide

theorem significant_printed (f : Formula) : significant f.printed = f.rows.map Text.row := by
  have hlines : Text.lines f.printed = f.rows.map Text.row := by
    refine Text.lines_ended ?_
    simp only [List.forall_mem_map]
    exact fun row hrow => Text.isLine_row fun word => isWord_of_mem_rows hrow
  have htrim : (f.rows.map Text.row).map Text.trim = f.rows.map Text.row := by
    rw [List.map_map]
    exact List.map_congr_left fun row hrow => Text.trim_row fun word => isWord_of_mem_rows hrow
  have hkept : ∀ line ∈ f.rows.map Text.row,
      (!line.isEmpty && line.head? != some 'c') = true ∧ (line.head? != some '%') = true := by
    simp only [List.forall_mem_map]
    intro row hrow
    obtain ⟨d, rest, heq, hc, hend⟩ := head?_row_of_mem_rows hrow
    simp [heq, hc, hend]
  rw [significant, hlines, htrim, List.filter_eq_self.2 fun line hline => (hkept line hline).1,
    List.takeWhile_eq_self_iff.2 fun line hline => (hkept line hline).2]

theorem headline_printed (f : Formula) : headline f.printed = some f.headerWords := by
  have hwords : Text.words (Text.row f.headerWords) = f.headerWords :=
    Text.words_row fun word => isWord_of_mem_rows List.mem_cons_self
  rw [headline, significant_printed, rows, List.map_cons, List.head?_cons, Option.map_some, hwords]

theorem tokens_printed (f : Formula) : tokens f.printed = f.numbers.map numeral := by
  have hwords : ∀ row ∈ f.rows.tail, Text.words (Text.row row) = row := fun row hrow =>
    Text.words_row fun word => isWord_of_mem_rows (List.mem_of_mem_tail hrow)
  rw [tokens, significant_printed, ← List.map_tail, List.flatMap_map,
    List.flatMap_congr hwords, numbers, List.map_flatMap, rows, List.tail_cons, List.flatMap_map]

theorem declaredBy_headerWords (hf : f.WellFormed) (hlength : f.clauses.length ≤ Numeral.word) :
    Header.DeclaredBy ⟨f.vars, f.clauses.length⟩ f.headerWords := by
  have hvars : f.vars ≤ Numeral.word := hf.vars_le.trans (by decide)
  exact ⟨_, _, rfl, Numeral.isNatural_toDigits hvars, hf.vars_le,
    Numeral.isNatural_toDigits hlength⟩

theorem grammatical_printed (hf : f.WellFormed) (hlength : f.clauses.length ≤ Numeral.word) :
    Grammatical f.printed ⟨f.vars, f.clauses.length⟩ f.numbers := by
  have hnumerals : Numbers f.vars (tokens f.printed) f.numbers :=
    tokens_printed f ▸ numbers_printed hf
  exact {
    header := ⟨f.headerWords, headline_printed f, declaredBy_headerWords hf hlength⟩
    single := head?_ne_of_numbers hnumerals
    numerals := hnumerals
    ended := getLast?_numbers f
    counted := count_numbers f }

/-! ## Reading back -/

/-- **A printed formula reads back as itself.** -/
theorem exists_text_parse_eq (hf : f.WellFormed) (hlength : f.clauses.length ≤ Numeral.word) :
    ∃ text, f.text = .ok text ∧ parse text = .ok f := by
  have hgrammar := grammatical_printed hf hlength
  rw [← String.toList_ofList (l := f.printed)] at hgrammar
  exact ⟨_, text_eq hf, parse_eq_ok_iff.2 ⟨_, _, hgrammar, rfl, clausesOf_numbers f⟩⟩

theorem length_splitOn (numbers : List Int) :
    (numbers.splitOn 0).length = numbers.count 0 + 1 := by
  induction numbers with
  | nil => rfl
  | cons t later ih =>
    rw [List.splitOn_cons_eq_if_modifyHead, List.count_cons]
    by_cases ht : t = 0 <;> simp [ht, ih]

/-- A formula that was read has no more clauses than a header can declare. -/
theorem length_clauses_of_parse {text : String} (h : parse text = .ok f) :
    f.clauses.length ≤ Numeral.word := by
  obtain ⟨header, numbers, hgrammar, -, hclauses⟩ := parse_eq_ok_iff.1 h
  obtain ⟨-, -, vars, clauses, -, -, -, -, -, -, hle⟩ := hgrammar.header
  have hcounted := hgrammar.counted
  rw [clausesOf_eq, Except.ok.injEq] at hclauses
  rw [← hclauses, List.length_map, List.length_dropLast, length_splitOn]
  omega

/-- Words are numerals for one list of numbers at most. -/
theorem Numbers.unique {vars : Nat} {words : List (List Char)} {us ts : List Int}
    (hus : Numbers vars words us) (hts : Numbers vars words ts) : us = ts := by
  have hunique : Relator.RightUnique (IsNumber vars) := fun _ _ _ hu ht => hu.1.unique ht.1
  exact hunique.forall₂ hus hts

/-- **Formulas with one text are equal.** -/
theorem text_injective (hf : f.WellFormed) (hg : g.WellFormed) (h : f.text = g.text) : f = g := by
  have hprinted : f.printed = g.printed := by
    rw [text_eq hf, text_eq hg, Except.ok.injEq] at h
    exact String.ofList_injective h
  have hvars : f.vars = g.vars := by
    have hwords : f.headerWords = g.headerWords := by
      rw [← Option.some.injEq, ← headline_printed, ← headline_printed, hprinted]
    have hdigits : Nat.toDigits 10 f.vars = Nat.toDigits 10 g.vars :=
      (List.cons.inj (List.cons.inj (List.cons.inj hwords).2).2).1
    rw [← (Numeral.spells_toDigits f.vars).value_eq, hdigits,
      (Numeral.spells_toDigits g.vars).value_eq]
  have hnumbers : f.numbers = g.numbers := by
    have hus := numbers_printed hf
    have hts := numbers_printed hg
    rw [← tokens_printed] at hus hts
    rw [← hprinted, ← hvars] at hts
    exact hus.unique hts
  have hclauses : f.clauses = g.clauses := by
    have h := congrArg clausesOf hnumbers
    rwa [clausesOf_numbers, clausesOf_numbers, Except.ok.injEq] at h
  obtain ⟨vars, clauses⟩ := f
  obtain rfl : vars = g.vars := hvars
  obtain rfl : clauses = g.clauses := hclauses
  rfl

/-- **What is printed reads back.** A well-formed formula is always printed. The reader takes the
text back to the same formula whenever the number of clauses fits a 64-bit word, as it does for
every formula that was read, and no other formula is printed alike. -/
theorem printed_reads_back :
    (∀ f : Formula, f.WellFormed → f.clauses.length ≤ Numeral.word →
      ∃ text, f.text = .ok text ∧ parse text = .ok f) ∧
    (∀ (source : String) (f : Formula), parse source = .ok f →
      ∃ text, f.text = .ok text ∧ parse text = .ok f) ∧
    (∃ text, Formula.text {} = .ok text ∧ parse text = .ok {}) ∧
    ∀ f g : Formula, f.WellFormed → g.WellFormed →
      (∃ text, f.text = .ok text) ∧ (f.text = g.text → f = g) := by
  refine ⟨fun f => exists_text_parse_eq, fun source f hparse => ?_, ?_, fun f g hf hg => ?_⟩
  · exact exists_text_parse_eq (wellFormed_of_parse hparse) (length_clauses_of_parse hparse)
  · exact exists_text_parse_eq ⟨Nat.zero_le _, nofun⟩ (Nat.zero_le _)
  · exact ⟨⟨_, text_eq hf⟩, text_injective hf hg⟩

/-- An empty clause, and a tautology of the largest variable. -/
theorem printed_reads_back_tautology :
    let f : Formula := ⟨Variable.limit, [[], [⟨Variable.max, false⟩, ⟨Variable.max, true⟩]]⟩
    f.WellFormed ∧ f.clauses.length ≤ Numeral.word ∧
      (∃ text, f.text = .ok text ∧ parse text = .ok f) ∧
      parse "p cnf 2147483647 2\n0 -2147483647\n2147483647 0\n" = .ok f ∧
      f.text ≠ Formula.text {} := by
  intro f
  have hf : f.WellFormed := ⟨Nat.le_refl _, by decide⟩
  have hlength : f.clauses.length ≤ Numeral.word := by decide
  have hparse : parse "p cnf 2147483647 2\n0 -2147483647\n2147483647 0\n" = .ok f := by
    decide +kernel
  obtain ⟨hback, -, -, hinjective⟩ := printed_reads_back
  refine ⟨hf, hlength, hback f hf hlength, hparse, fun h => ?_⟩
  have heq := (hinjective f {} hf ⟨Nat.zero_le _, nofun⟩).2 h
  exact absurd heq (by decide)

end Formula

end Polarity
