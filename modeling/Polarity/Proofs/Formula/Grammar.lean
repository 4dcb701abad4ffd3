import Polarity.Formula.Dimacs
import Polarity.Proofs.Formula.Valuation
import Polarity.Proofs.Results
import Polarity.Proofs.Text.Layout
import Polarity.Proofs.Text.Numerals

/-!
# The grammar of formula files

**Theorem (`parse_accepts_grammar`).** A file is read exactly when it is grammatical, and the
formula has the clauses that the numbers of the file fall into when they are cut at the zeros.

The grammar knows no lines but the first: it is about the words of the header and about the words of
all other lines, one after the other (`Grammatical`). The reader goes line by line and keeps a
`Draft`. What it keeps is the result of taking the numbers one by one (`Draft.take`), and the
clauses and the pending literals of a draft are always the pieces between the zeros seen so far
(`Draft.pieces_foldl_take`).
-/

namespace Polarity.Formula

/-! ## The grammar -/

/-- The lines that count, without the blanks around them: those before the first line that starts
with `%`, less the empty ones and the comments. -/
def significant (text : List Char) : List (List Char) :=
  (((Text.lines text).map Text.trim).filter fun line =>
    !line.isEmpty && line.head? != some 'c').takeWhile fun line => line.head? != some '%'

/-- The words of the first line that counts. -/
def headline (text : List Char) : Option (List (List Char)) :=
  (significant text).head?.map Text.words

/-- The words of the other lines that count, whichever lines they stand on. -/
def tokens (text : List Char) : List (List Char) :=
  (significant text).tail.flatMap Text.words

/-- These words declare a number of variables, not too many, and a number of clauses. -/
def Header.DeclaredBy (h : Header) (words : List (List Char)) : Prop :=
  ∃ vars clauses, words = [['p'], ['c', 'n', 'f'], vars, clauses] ∧
    Numeral.IsNatural Numeral.word vars h.vars ∧ h.vars ≤ Variable.limit ∧
    Numeral.IsNatural Numeral.word clauses h.clauses

/-- The word is a numeral for this 32-bit number, which is not beyond the number of variables. -/
def IsNumber (vars : Nat) (token : List Char) (t : Int) : Prop :=
  Numeral.IsSigned Numeral.int32 token t ∧ t.natAbs ≤ vars

/-- The words are numerals for these numbers, one for each. -/
abbrev Numbers (vars : Nat) : List (List Char) → List Int → Prop :=
  List.Forall₂ (IsNumber vars)

/-- The text is a formula file with this header and these numbers. -/
structure Grammatical (text : List Char) (h : Header) (numbers : List Int) : Prop where
  header : ∃ words, headline text = some words ∧ h.DeclaredBy words
  single : ∀ line ∈ (significant text).tail, line.head? ≠ some 'p'
  numerals : Numbers h.vars (tokens text) numbers
  ended : numbers = [] ∨ numbers.getLast? = some 0
  counted : numbers.count 0 = h.clauses

/-- The clauses that numbers fall into when they are cut at the zeros. -/
def clausesOf (numbers : List Int) : Except Failure (List Clause) :=
  (numbers.splitOn 0).dropLast.mapM fun clause => clause.mapM Literal.ofDimacs

variable {text line : List Char} {h : Header} {f : Formula} {d d' : Draft} {t : Int}
  {vars n : Nat} {numbers : List Int}

/-! ## Lines -/

theorem map_snd_statements (text : List Char) :
    (statements text).map (·.2) = significant text := by
  have hlines : ((Text.numbered 1 (Text.lines text)).map fun l => (l.1, Text.trim l.2)).map (·.2) =
      (Text.lines text).map Text.trim := by
    conv_rhs => rw [← Text.map_snd_numbered 1 (Text.lines text)]
    rw [List.map_map, List.map_map]
    rfl
  rw [significant, ← hlines, List.filter_map, List.takeWhile_map]
  rfl

/-- A line that counts starts with its first word. -/
theorem words_of_mem_significant (hline : line ∈ significant text) :
    ∃ c rest word later, line = c :: rest ∧ Text.words line = (c :: word) :: later := by
  have hmem := List.takeWhile_subset _ hline
  rw [List.mem_filter, List.mem_map] at hmem
  obtain ⟨⟨raw, -, rfl⟩, hkept⟩ := hmem
  cases htrim : Text.trim raw with
  | nil => simp [htrim] at hkept
  | cons c rest =>
    have hc : Text.isBlank c = false := Text.isBlank_of_head?_trim (by rw [htrim]; rfl)
    obtain ⟨word, later, hwords⟩ := Text.words_cons hc rest
    exact ⟨c, rest, word, later, rfl, hwords⟩

theorem head?_of_declaredBy (hline : line ∈ significant text)
    (hh : h.DeclaredBy (Text.words line)) : line.head? = some 'p' := by
  obtain ⟨c, rest, word, later, rfl, hwords⟩ := words_of_mem_significant hline
  obtain ⟨vars, clauses, heq, -⟩ := hh
  rw [hwords] at heq
  have hc : c = 'p' := by simpa using congrArg (·.head?.bind List.head?) heq
  rw [hc]
  rfl

/-- Words that are numerals stand on no line that starts like a header. -/
theorem head?_ne_of_numbers (hnumbers : Numbers vars (tokens text) numbers) :
    ∀ line ∈ (significant text).tail, line.head? ≠ some 'p' := by
  intro line hline hp
  obtain ⟨c, rest, word, later, rfl, hwords⟩ :=
    words_of_mem_significant (List.mem_of_mem_tail hline)
  obtain rfl : c = 'p' := by simpa using hp
  have htoken : 'p' :: word ∈ tokens text :=
    List.mem_flatMap.2 ⟨_, hline, by rw [hwords]; exact List.mem_cons_self⟩
  obtain ⟨earlier, others, hsplit⟩ := List.append_of_mem htoken
  rw [Numbers, hsplit, forall₂_append_left_iff] at hnumbers
  obtain ⟨-, _, -, hrest, -⟩ := hnumbers
  obtain ⟨t, -, ⟨ht, -⟩, -⟩ := List.forall₂_cons_left_iff.1 hrest
  rcases ht.head with hdigit | hsign | hsign
  · exact absurd hdigit (by decide)
  · exact absurd hsign (by decide)
  · exact absurd hsign (by decide)

/-! ## The header -/

theorem Header.parse_eq_ok_iff : Header.parse line = .ok h ↔ h.DeclaredBy (Text.words line) := by
  unfold Header.parse Header.DeclaredBy
  split
  · rename_i vars clauses hwords
    simp only [hwords, bind_eq_ok_iff, mapError_eq_ok_iff, Numeral.natural_eq_ok_iff,
      guard_eq_ok_iff, pure_eq_ok_iff, Nat.not_lt]
    constructor
    · rintro ⟨n, hn, hlimit, m, hm, rfl⟩
      exact ⟨vars, clauses, rfl, hn, hlimit, hm⟩
    · rintro ⟨vars', clauses', heq, hn, hlimit, hm⟩
      obtain ⟨rfl, rfl⟩ : vars = vars' ∧ clauses = clauses' := by simpa using heq
      exact ⟨h.vars, hn, hlimit, h.clauses, hm, rfl⟩
  · rename_i hshape
    refine ⟨nofun, ?_⟩
    rintro ⟨vars, clauses, hwords, -⟩
    exact absurd hwords (hshape vars clauses)

/-! ## Numbers -/

/-- The literal with a number other than zero. -/
def literalOf (t : Int) : Literal := ⟨⟨t.natAbs - 1⟩, 0 < t⟩

/-- The draft after one more number. -/
def Draft.take (d : Draft) (t : Int) : Draft :=
  if t = 0 then { d with clauses := d.pending.reverse :: d.clauses, pending := [] }
  else { d with pending := literalOf t :: d.pending }

namespace Draft

@[simp] theorem header_take : (d.take t).header = d.header := by
  unfold take
  split <;> rfl

@[simp] theorem header_foldl_take : (numbers.foldl take d).header = d.header := by
  induction numbers generalizing d with
  | nil => rfl
  | cons t later ih => rw [List.foldl_cons, ih, header_take]

/-- One more number is read when it is a numeral and not too large. -/
theorem readNumber_eq_ok_iff {token : List Char} :
    d.readNumber vars n token = .ok d' ↔ ∃ t, IsNumber vars token t ∧ d' = d.take t := by
  unfold readNumber take IsNumber
  simp only [bind_eq_ok_iff, mapError_eq_ok_iff, Numeral.signed_eq_ok_iff, and_assoc]
  refine exists_congr fun t => and_congr_right fun _ => ?_
  by_cases ht : t = 0
  · simp [ht, pure_eq_ok_iff]
  · simp only [ht, if_false, guard_eq_ok_iff, pure_eq_ok_iff, Nat.not_lt, literalOf]

theorem foldlM_readNumber_eq_ok_iff {words : List (List Char)} :
    words.foldlM (readNumber vars n) d = .ok d' ↔
      ∃ numbers, Numbers vars words numbers ∧ d' = numbers.foldl take d := by
  have hstep : ∀ (d : Draft) (token : List Char) (d' : Draft),
      d.readNumber vars n token = .ok d' ↔ ∃ t, IsNumber vars token t ∧ d' = d.take t :=
    fun _ _ _ => readNumber_eq_ok_iff
  exact foldlM_eq_ok_iff hstep

/-- The lines after the header are read as one sequence of numbers. -/
theorem foldlM_readLine_eq_ok_iff (hd : d.header = some h) {lines : List (Nat × List Char)} :
    lines.foldlM readLine d = .ok d' ↔
      (∀ line ∈ lines.map (·.2), line.head? ≠ some 'p') ∧
        ∃ numbers, Numbers h.vars ((lines.map (·.2)).flatMap Text.words) numbers ∧
          d' = numbers.foldl take d := by
  -- On the lines; the header stays as it is, whatever numbers are taken.
  induction lines generalizing d with
  | nil => simp [pure, Except.pure, eq_comm]
  | cons first later ih =>
    obtain ⟨n, line⟩ := first
    rw [List.foldlM_cons, bind_eq_ok_iff, List.map_cons, List.flatMap_cons, List.forall_mem_cons]
    by_cases hp : line.head? = some 'p'
    · simp [readLine, hp, hd]
    · simp only [readLine, hp, if_false, hd, foldlM_readNumber_eq_ok_iff]
      constructor
      · rintro ⟨_, ⟨us, hus, rfl⟩, hlater⟩
        obtain ⟨hsingle, vs, hvs, rfl⟩ := (ih (header_foldl_take.trans hd)).1 hlater
        refine ⟨⟨hp, hsingle⟩, us ++ vs, ?_, (List.foldl_append ..).symm⟩
        exact forall₂_append_left_iff.2 ⟨us, vs, hus, hvs, rfl⟩
      · rintro ⟨⟨-, hsingle⟩, numbers, hnumbers, rfl⟩
        obtain ⟨us, vs, hus, hvs, rfl⟩ := forall₂_append_left_iff.1 hnumbers
        refine ⟨us.foldl take d, ⟨us, hus, rfl⟩, ?_⟩
        exact (ih (header_foldl_take.trans hd)).2 ⟨hsingle, vs, hvs, List.foldl_append ..⟩

/-- The clauses of a draft and its pending literals are what lies between the zeros. -/
theorem pieces_foldl_take (numbers : List Int) (d : Draft) :
    (numbers.foldl take d).clauses.reverse ++ [(numbers.foldl take d).pending.reverse] =
      d.clauses.reverse ++ ((numbers.splitOn 0).map (·.map literalOf)).modifyHead
        (d.pending.reverse ++ ·) := by
  induction numbers generalizing d with
  | nil => simp [List.splitOn_nil]
  | cons t later ih =>
    obtain ⟨piece, pieces, hsplit⟩ := List.exists_cons_of_ne_nil (List.splitOn_ne_nil 0 later)
    rw [List.foldl_cons, ih, List.splitOn_cons_eq_if_modifyHead, hsplit]
    by_cases ht : t = 0 <;> simp [take, ht]

theorem length_clauses_foldl_take (numbers : List Int) (d : Draft) :
    (numbers.foldl take d).clauses.length = d.clauses.length + numbers.count 0 := by
  induction numbers generalizing d with
  | nil => rfl
  | cons t later ih =>
    rw [List.foldl_cons, ih, List.count_cons]
    by_cases ht : t = 0
    · simp only [take, ht, if_true, List.length_cons, beq_self_eq_true]
      omega
    · simp [take, ht]

theorem pending_foldl_take_eq_nil_iff (hd : d.pending = []) :
    (numbers.foldl take d).pending = [] ↔ numbers = [] ∨ numbers.getLast? = some 0 := by
  cases numbers using List.reverseRecOn with
  | nil => simp [hd]
  | append_singleton earlier t => by_cases ht : t = 0 <;> simp [take, ht]

/-- A draft makes a formula when its last clause is ended and the number of clauses is right. -/
theorem finish_eq_ok_iff : d.finish = .ok f ↔ ∃ h, d.header = some h ∧ d.pending = [] ∧
    d.clauses.length = h.clauses ∧ f = ⟨h.vars, d.clauses.reverse⟩ := by
  unfold finish
  cases d.header with
  | none => simp
  | some h =>
    by_cases hp : d.pending = []
    · by_cases hc : d.clauses.length = h.clauses
      · simp [hp, hc, eq_comm]
      · simp [hp, hc]
    · simp [hp]

end Draft

/-! ## Cutting at the zeros -/

/-- Between the zeros there are the other numbers. -/
theorem mem_of_mem_splitOn {piece : List Int} (hpiece : piece ∈ numbers.splitOn 0)
    (ht : t ∈ piece) : t ∈ numbers ∧ t ≠ 0 := by
  obtain ⟨hmem, hcut⟩ := mem_of_mem_splitOnP hpiece ht
  exact ⟨hmem, by simpa using hcut⟩

theorem clausesOf_eq (numbers : List Int) :
    clausesOf numbers = .ok ((numbers.splitOn 0).dropLast.map (·.map literalOf)) := by
  refine mapM_eq_ok fun piece hpiece => mapM_eq_ok fun t ht => ?_
  have hne := (mem_of_mem_splitOn (List.dropLast_subset _ hpiece) ht).2
  rw [Literal.ofDimacs, if_neg hne]
  rfl

/-- The formula of a draft that has taken all numbers, if it is one. -/
theorem Draft.finish_foldl_take_eq_ok_iff (hheader : d.header = some h) (hclauses : d.clauses = [])
    (hpending : d.pending = []) :
    (numbers.foldl take d).finish = .ok f ↔
      (numbers = [] ∨ numbers.getLast? = some 0) ∧ numbers.count 0 = h.clauses ∧
        f.vars = h.vars ∧ clausesOf numbers = .ok f.clauses := by
  have hcount : (numbers.foldl take d).clauses.length = numbers.count 0 := by
    simpa [hclauses] using length_clauses_foldl_take numbers d
  have hcut : (numbers.foldl take d).clauses.reverse =
      (numbers.splitOn 0).dropLast.map (·.map literalOf) := by
    obtain ⟨piece, pieces, hsplit⟩ := List.exists_cons_of_ne_nil (List.splitOn_ne_nil 0 numbers)
    have hpieces : (numbers.foldl take d).clauses.reverse ++
        [(numbers.foldl take d).pending.reverse] =
          (numbers.splitOn 0).map (·.map literalOf) := by
      rw [pieces_foldl_take, hsplit]
      simp [hclauses, hpending]
    rw [List.map_dropLast, ← hpieces, List.dropLast_concat]
  simp only [finish_eq_ok_iff, header_foldl_take, hheader, pending_foldl_take_eq_nil_iff hpending,
    hcount, hcut, clausesOf_eq, Except.ok.injEq, Option.some.injEq, exists_eq_left']
  refine and_congr_right fun _ => and_congr_right fun _ => ?_
  constructor
  · rintro rfl
    exact ⟨rfl, rfl⟩
  · rintro ⟨hvars, hf⟩
    rw [hf, ← hvars]

/-! ## Files -/

theorem Draft.readLine_default_eq_ok_iff :
    ({} : Draft).readLine (n, line) = .ok d ↔
      line.head? = some 'p' ∧
        ∃ h : Header, h.DeclaredBy (Text.words line) ∧ d = { header := some h } := by
  by_cases hp : line.head? = some 'p'
  · simp [readLine, hp, map_eq_ok_iff, mapError_eq_ok_iff, Header.parse_eq_ok_iff]
  · simp [readLine, hp]

/-- **A file is read exactly when it is grammatical**, and the numbers in it give the clauses. -/
theorem parse_eq_ok_iff {text : String} : parse text = .ok f ↔
    ∃ h numbers, Grammatical text.toList h numbers ∧ f.vars = h.vars ∧
      clausesOf numbers = .ok f.clauses := by
  have hlines := map_snd_statements text.toList
  rw [parse, bind_eq_ok_iff]
  cases hstatements : statements text.toList with
  | nil =>
    -- There is no header, neither for the reader nor for the grammar.
    rw [hstatements, List.map_nil] at hlines
    constructor
    · rintro ⟨d, hd, hfinish⟩
      cases hd
      cases hfinish
    · rintro ⟨h, numbers, hgrammar, -⟩
      obtain ⟨words, hwords, -⟩ := hgrammar.header
      simp [headline, ← hlines] at hwords
  | cons first later =>
    -- The first line is the header, or nothing is read at all.
    obtain ⟨n, line⟩ := first
    rw [hstatements, List.map_cons] at hlines
    simp only [List.foldlM_cons, bind_eq_ok_iff, Draft.readLine_default_eq_ok_iff]
    constructor
    · rintro ⟨d, ⟨d₀, ⟨hp, h, hh, rfl⟩, hd⟩, hfinish⟩
      obtain ⟨hsingle, numbers, hnumbers, rfl⟩ := (Draft.foldlM_readLine_eq_ok_iff rfl).1 hd
      obtain ⟨hended, hcounted, hf⟩ := (Draft.finish_foldl_take_eq_ok_iff rfl rfl rfl).1 hfinish
      refine ⟨h, numbers, ⟨⟨Text.words line, ?_, hh⟩, ?_, ?_, hended, hcounted⟩, hf⟩
      · rw [headline, ← hlines]
        rfl
      · rwa [← hlines]
      · rwa [tokens, ← hlines]
    · rintro ⟨h, numbers, hgrammar, hf⟩
      obtain ⟨words, hwords, hh⟩ := hgrammar.header
      obtain rfl : Text.words line = words := by simpa [headline, ← hlines] using hwords
      have hp : line.head? = some 'p' :=
        head?_of_declaredBy (by rw [← hlines]; exact List.mem_cons_self) hh
      have hsingle := hgrammar.single
      have hnumerals := hgrammar.numerals
      rw [← hlines] at hsingle
      rw [tokens, ← hlines] at hnumerals
      refine ⟨numbers.foldl Draft.take { header := some h }, ⟨_, ⟨hp, h, hh, rfl⟩, ?_⟩, ?_⟩
      · exact (Draft.foldlM_readLine_eq_ok_iff rfl).2 ⟨hsingle, numbers, hnumerals, rfl⟩
      · have hended := hgrammar.ended
        exact (Draft.finish_foldl_take_eq_ok_iff rfl rfl rfl).2 ⟨hended, hgrammar.counted, hf⟩

theorem Numbers.natAbs_le {words : List (List Char)} (hnumbers : Numbers vars words numbers)
    (ht : t ∈ numbers) : t.natAbs ≤ vars := by
  induction hnumbers with
  | nil => cases ht
  | cons hfirst _ ih =>
    rcases List.mem_cons.1 ht with rfl | ht
    · exact hfirst.2
    · exact ih ht

theorem wellFormed_of_parse {text : String} (hparse : parse text = .ok f) : f.WellFormed := by
  obtain ⟨h, numbers, hgrammar, hvars, hclauses⟩ := parse_eq_ok_iff.1 hparse
  obtain ⟨-, -, vars, clauses, -, -, hlimit, -⟩ := hgrammar.header
  rw [clausesOf_eq, Except.ok.injEq] at hclauses
  refine ⟨hvars.trans_le hlimit, ?_⟩
  rw [← hclauses, hvars]
  simp only [List.forall_mem_map]
  intro piece hpiece t ht
  obtain ⟨hmem, hne⟩ := mem_of_mem_splitOn (List.dropLast_subset _ hpiece) ht
  have hle := hgrammar.numerals.natAbs_le hmem
  have hpos := Int.natAbs_pos.2 hne
  show t.natAbs - 1 < h.vars
  omega

theorem wellFormed_of_load {read : Reader} {path : Path} (hload : load read path = .ok f) :
    f.WellFormed := by
  unfold load at hload
  split at hload
  · cases hload
  · exact wellFormed_of_parse (mapError_eq_ok_iff.1 hload)

/-- What counts is the header and the words after it, not the lines they stand on. -/
theorem Grammatical.of_eq {other : List Char} (hgrammar : Grammatical text h numbers)
    (hheadline : headline other = headline text) (htokens : tokens other = tokens text) :
    Grammatical other h numbers where
  header := hheadline ▸ hgrammar.header
  single := head?_ne_of_numbers (htokens ▸ hgrammar.numerals)
  numerals := htokens ▸ hgrammar.numerals
  ended := hgrammar.ended
  counted := hgrammar.counted

theorem parse_eq_of_eq {text other : String} (hparse : parse text = .ok f)
    (hheadline : headline other.toList = headline text.toList)
    (htokens : tokens other.toList = tokens text.toList) : parse other = .ok f := by
  obtain ⟨h, numbers, hgrammar, hf⟩ := parse_eq_ok_iff.1 hparse
  exact parse_eq_ok_iff.2 ⟨h, numbers, hgrammar.of_eq hheadline htokens, hf⟩

theorem exists_parse_eq_ok_iff {text : String} :
    (∃ f, parse text = .ok f) ↔ ∃ h numbers, Grammatical text.toList h numbers := by
  constructor
  · rintro ⟨f, hparse⟩
    obtain ⟨h, numbers, hgrammar, -⟩ := parse_eq_ok_iff.1 hparse
    exact ⟨h, numbers, hgrammar⟩
  · rintro ⟨h, numbers, hgrammar⟩
    exact ⟨⟨h.vars, _⟩, parse_eq_ok_iff.2 ⟨h, numbers, hgrammar, rfl, clausesOf_eq numbers⟩⟩

theorem exists_parse_eq_error_iff {text : String} :
    (∃ e, parse text = .error e) ↔ ¬ ∃ h numbers, Grammatical text.toList h numbers := by
  rw [← exists_parse_eq_ok_iff]
  cases parse text <;> simp

/-- **The reader accepts exactly the grammar.** A text is read as a formula exactly when it is
grammatical, and otherwise there is an error. The formula has the variables that the header declares
and the clauses between the zeros, names no variable beyond them, and is the same however the words
are laid out on lines. -/
theorem parse_accepts_grammar (text : String) :
    (∀ f, parse text = .ok f ↔ ∃ h numbers, Grammatical text.toList h numbers ∧
      f.vars = h.vars ∧ clausesOf numbers = .ok f.clauses) ∧
    ((∃ f, parse text = .ok f) ↔ ∃ h numbers, Grammatical text.toList h numbers) ∧
    ((∃ e, parse text = .error e) ↔ ¬ ∃ h numbers, Grammatical text.toList h numbers) ∧
    (∀ f, parse text = .ok f → f.WellFormed) ∧
    ∀ f (other : String), parse text = .ok f → headline other.toList = headline text.toList →
      tokens other.toList = tokens text.toList → parse other = .ok f :=
  ⟨fun _ => parse_eq_ok_iff, exists_parse_eq_ok_iff, exists_parse_eq_error_iff,
    fun _ => wellFormed_of_parse, fun _ _ => parse_eq_of_eq⟩

/-- A clause that spans lines, and the same clauses one to a line. -/
theorem parse_accepts_grammar_spread :
    let f : Formula := ⟨3, [[⟨⟨0⟩, true⟩, ⟨⟨1⟩, true⟩, ⟨⟨2⟩, false⟩], [⟨⟨2⟩, true⟩]]⟩
    parse "c\np cnf 3 2\n1 2\n-3 0 3\n0\n%\n0\n" = .ok f ∧ f.WellFormed ∧
      parse "p  cnf 3 2\r\n1 2 -3 0\n3 0" = .ok f := by
  intro f
  have hparse : parse "c\np cnf 3 2\n1 2\n-3 0 3\n0\n%\n0\n" = .ok f := by decide +kernel
  obtain ⟨-, -, -, hwellFormed, hspread⟩ :=
    parse_accepts_grammar "c\np cnf 3 2\n1 2\n-3 0 3\n0\n%\n0\n"
  refine ⟨hparse, hwellFormed f hparse, hspread f _ hparse ?_ ?_⟩
  · decide +kernel
  · decide +kernel

end Polarity.Formula
