import Polarity.CommandLine.Solve
import Polarity.Proofs.Results
import Polarity.Proofs.Text.Spacing
import Polarity.Proofs.Text.Utf8

/-!
# Texts of errors

**What an error quotes.** A diagnostic about a file shows the path of the file, and it may show a line
or a word that was found in it. All else is fixed text and numbers.

**Lines and words have no newline.** What is quoted of a formula is a line of its file without the
blanks around it, or a word (`Formula.newline_not_mem_quoted`), and what is quoted of a hint is a word.
So the path, which the first text shows, is all that can break a diagnostic
(`Formula.shownFirst_of_load`, `Hint.shownFirst_of_load`).

**One line.** A failure is therefore reported by one line, which is the last one, just in case the path
has no newline (`Solve.reportedOnce_iff`).
-/

namespace Polarity

open Text (IsLine)

/-! ## Texts on one line -/

namespace Text

variable {line : List Char} {n : Nat}

theorem isLine_iff : IsLine line ↔ '\n' ∉ line ∧ line.getLast? ≠ some '\r' :=
  ⟨fun h => ⟨h.not_newline, h.not_return⟩, fun h => ⟨h.1, h.2⟩⟩

theorem ne_of_mem_toDigits {c d : Char} (hc : c ∈ Nat.toDigits 10 n) (hd : d.isDigit = false) :
    c ≠ d := by
  rintro rfl
  simp [Nat.isDigit_of_mem_toDigits (by decide) (by decide) hc] at hd

@[simp] theorem newline_not_mem_toDigits (n : Nat) : '\n' ∉ Nat.toDigits 10 n := fun h =>
  ne_of_mem_toDigits h (by decide) rfl

@[simp] theorem getLast?_toDigits_ne (n : Nat) (c : Char) :
    (Nat.toDigits 10 n).getLast?.getD c ≠ '\r' := by
  cases hlast : (Nat.toDigits 10 n).getLast? with
  | none => exact absurd (List.getLast?_eq_none_iff.1 hlast) Nat.toDigits_ne_nil
  | some d => exact ne_of_mem_toDigits (List.mem_of_getLast? hlast) (by decide)

@[simp] theorem newline_not_mem_repr (i : Int) : '\n' ∉ i.repr.toList := by
  cases i with
  | ofNat n =>
    have htext : (Int.ofNat n).repr.toList = Nat.toDigits 10 n := Nat.toList_repr
    exact htext ▸ newline_not_mem_toDigits n
  | negSucc n =>
    have htext : (Int.negSucc n).repr.toList = '-' :: Nat.toDigits 10 (n + 1) := by
      show ("-" ++ toString (n + 1)).toList = _
      simp
    rw [htext, List.mem_cons, not_or]
    exact ⟨by decide, newline_not_mem_toDigits (n + 1)⟩

theorem toString_eq (s : String) : toString s = s := rfl

theorem newline_mem_intercalate (chain : List String) :
    '\n' ∈ (": ".intercalate chain).toList ↔ ∃ t ∈ chain, '\n' ∈ t.toList := by
  induction chain with
  | nil => simp
  | cons first later ih =>
    cases later with
    | nil => simp
    | cons second later =>
      rw [String.intercalate_cons_cons, String.toList_append, String.toList_append, List.mem_append,
        List.mem_append, ih]
      simp

theorem getLast?_intercalate_ne {chain : List String}
    (h : ∀ t ∈ chain, t.toList.getLast? ≠ some '\r') :
    (": ".intercalate chain).toList.getLast? ≠ some '\r' := by
  induction chain with
  | nil => simp
  | cons first later ih =>
    obtain ⟨hfirst, hlater⟩ := List.forall_mem_cons.1 h
    cases later with
    | nil => simpa using hfirst
    | cons second later =>
      rw [String.intercalate_cons_cons, String.toList_append, String.toList_append,
        List.getLast?_append, Ne, Option.or_eq_some_iff, not_or]
      refine ⟨ih hlater, ?_⟩
      simp [List.getLast?_cons]

end Text

/-- The first text shows the path, and the others can stand on a line whatever the path is. -/
inductive Path.ShownFirst (path : Path) : List String → Prop
  | intro {first : String} {later : List String}
      (newline : '\n' ∈ first.toList ↔ '\n' ∈ path.text.toList)
      (ended : first.toList.getLast? ≠ some '\r') (lines : ∀ t ∈ later, IsLine t.toList) :
      ShownFirst path (first :: later)

/-- The texts with colons between them can stand on a line just in case the path has no newline. -/
theorem Path.ShownFirst.newline_mem_iff {path : Path} {chain : List String}
    (h : path.ShownFirst chain) :
    '\n' ∈ (": ".intercalate chain).toList ↔ Utf8.newline ∈ path.bytes := by
  obtain ⟨hnewline, -, hlines⟩ := h
  rw [Text.newline_mem_intercalate]
  simp only [List.mem_cons, exists_eq_or_imp]
  rw [hnewline, Path.text, Utf8.newline_mem_lossy, or_iff_left]
  exact fun ⟨t, ht, hmem⟩ => (hlines t ht).not_newline hmem

theorem Path.ShownFirst.getLast?_ne {path : Path} {chain : List String}
    (h : path.ShownFirst chain) : (": ".intercalate chain).toList.getLast? ≠ some '\r' := by
  obtain ⟨-, hended, hlines⟩ := h
  apply Text.getLast?_intercalate_ne
  rw [List.forall_mem_cons]
  exact ⟨hended, fun t ht => (hlines t ht).not_return⟩

theorem Path.ShownFirst.isLine_error {path : Path} {chain : List String} (h : path.ShownFirst chain)
    (hpath : Utf8.newline ∉ path.bytes) :
    IsLine ("c error: " ++ ": ".intercalate chain).toList := by
  rw [← h.newline_mem_iff] at hpath
  rw [Text.isLine_iff, String.toList_append, List.getLast?_append, List.mem_append, not_or, Ne,
    Option.or_eq_some_iff, not_or]
  exact ⟨⟨by decide, hpath⟩, h.getLast?_ne, by simp⟩

/-! ## Faults -/

namespace IoFault

/-- The fault is one of those that are told apart. -/
def isKnown : IoFault → Bool
  | other _ => false
  | _ => true

theorem isLine_text {fault : IoFault} (h : fault.isKnown = true) : IsLine fault.text.toList := by
  cases fault with
  | other => cases h
  | _ => simp [Text.isLine_iff, text]

end IoFault

namespace Directory

variable {d : Directory} {path : Path} {fault : IoFault}

theorem isKnown_of_check (h : check path = .error fault) : fault.isKnown = true := by
  unfold check at h
  split_ifs at h <;> cases h <;> rfl

theorem isKnown_of_enter {place : Option Location} {name : Name}
    (h : d.enter place name = .error fault) : fault.isKnown = true := by
  unfold enter at h
  split at h <;> split_ifs at h <;> cases h <;> rfl

/-- **Reading a file in a directory fails for a reason that is known.** -/
theorem isKnown_of_read {failure : ReadFailure} (h : d.read path = .error failure) :
    failure.cause.isKnown = true := by
  unfold read at h
  split at h
  · next hwalk =>
    cases h
    rcases bind_eq_error_iff.1 hwalk with hcheck | ⟨-, -, hwalk⟩
    · exact isKnown_of_check hcheck
    · obtain ⟨place, name, -, henter⟩ := exists_of_foldlM_eq_error hwalk
      exact isKnown_of_enter henter
  · cases h
    rfl
  · split at h <;> cases h
    rfl

theorem isKnown_of_text {failure : ReadFailure} (h : d.read.text path = .error failure) :
    failure.cause.isKnown = true := by
  rcases bind_eq_error_iff.1 h with hread | ⟨bytes, -, hdecode⟩
  · exact isKnown_of_read hread
  · split at hdecode <;> cases hdecode
    rfl

end Directory

/-! ## Formulas -/

theorem NumeralError.isLine_text (e : NumeralError) : IsLine e.text.toList := by
  cases e <;> simp [Text.isLine_iff, text]

namespace Formula

/-- What a header error quotes. -/
def HeaderError.quoted : HeaderError → List Char
  | badShape line => line.toList
  | _ => []

/-- What an error quotes. -/
def DimacsError.quoted : DimacsError → List Char
  | header _ cause => cause.quoted
  | invalidLiteral token _ _ => token.toList
  | _ => []

theorem HeaderError.isLine_chain {e : HeaderError} (he : '\n' ∉ e.quoted) :
    ∀ t ∈ e.chain, IsLine t.toList := by
  cases e with
  | badShape line =>
    have hline : '\n' ∉ line.toList := he
    simp [chain, Text.isLine_iff, Text.toString_eq, hline, List.getLast?_cons, List.getLast?_append]
  | badVars cause =>
    rw [chain, List.forall_mem_cons, List.forall_mem_singleton]
    exact ⟨by simp [Text.isLine_iff], cause.isLine_text⟩
  | tooManyVars =>
    simp [chain, Text.isLine_iff, Text.toString_eq, List.getLast?_cons, List.getLast?_append]
  | badClauses cause =>
    rw [chain, List.forall_mem_cons, List.forall_mem_singleton]
    exact ⟨by simp [Text.isLine_iff], cause.isLine_text⟩

theorem DimacsError.isLine_chain {e : DimacsError} (he : '\n' ∉ e.quoted) :
    ∀ t ∈ e.chain, IsLine t.toList := by
  cases e with
  | header line cause =>
    rw [chain, List.forall_mem_cons]
    refine ⟨?_, cause.isLine_chain he⟩
    simp [Text.isLine_iff, Text.toString_eq, List.getLast?_cons]
  | invalidLiteral token line cause =>
    have htoken : '\n' ∉ token.toList := he
    rw [chain, List.forall_mem_cons, List.forall_mem_singleton]
    refine ⟨?_, cause.isLine_text⟩
    simp [Text.isLine_iff, Text.toString_eq, htoken, List.getLast?_cons, List.getLast?_append]
  | _ => simp [chain, Text.isLine_iff, Text.toString_eq, List.getLast?_cons, List.getLast?_append]

variable {d : Directory} {path : Path}

theorem Header.newline_not_mem_quoted {line : List Char} {e : HeaderError} (hline : '\n' ∉ line)
    (h : Header.parse line = .error e) : '\n' ∉ e.quoted := by
  unfold Header.parse at h
  split at h
  · rcases bind_eq_error_iff.1 h with hvars | ⟨vars, -, hrest⟩
    · obtain ⟨cause, -, rfl⟩ := mapError_eq_error_iff.1 hvars
      exact List.not_mem_nil
    · split at hrest
      · cases hrest
        exact List.not_mem_nil
      · rcases bind_eq_error_iff.1 hrest with hclauses | ⟨clauses, -, hdone⟩
        · obtain ⟨cause, -, rfl⟩ := mapError_eq_error_iff.1 hclauses
          exact List.not_mem_nil
        · cases hdone
  · cases h
    simpa [HeaderError.quoted] using hline

theorem Draft.newline_not_mem_quoted_of_readNumber {vars line : Nat} {draft : Draft}
    {token : List Char} {e : DimacsError} (htoken : '\n' ∉ token)
    (h : draft.readNumber vars line token = .error e) : '\n' ∉ e.quoted := by
  rcases bind_eq_error_iff.1 h with hnumber | ⟨number, -, hrest⟩
  · obtain ⟨cause, -, rfl⟩ := mapError_eq_error_iff.1 hnumber
    simpa [DimacsError.quoted] using htoken
  · split at hrest
    · cases hrest
    · split at hrest <;> cases hrest
      exact List.not_mem_nil

theorem Draft.newline_not_mem_quoted_of_readLine {draft : Draft} {n : Nat} {line : List Char}
    {e : DimacsError} (hline : '\n' ∉ line) (h : draft.readLine (n, line) = .error e) :
    '\n' ∉ e.quoted := by
  rw [readLine] at h
  split at h
  · split at h
    · cases h
      exact List.not_mem_nil
    · obtain ⟨cause, hparse, rfl⟩ := mapError_eq_error_iff.1 (map_eq_error_iff.1 h)
      exact Header.newline_not_mem_quoted hline hparse
  · split at h
    · cases h
      exact List.not_mem_nil
    · obtain ⟨before, token, htoken, hnumber⟩ := exists_of_foldlM_eq_error h
      exact newline_not_mem_quoted_of_readNumber (Text.newline_not_mem_of_mem_words htoken) hnumber

theorem newline_not_mem_of_mem_statements {text : List Char} {n : Nat} {line : List Char}
    (h : (n, line) ∈ statements text) : '\n' ∉ line := by
  have hmem := List.mem_of_mem_filter (List.takeWhile_subset _ h)
  obtain ⟨⟨m, whole⟩, hwhole, hline⟩ := List.mem_map.1 hmem
  obtain ⟨rfl, rfl⟩ := Prod.mk.inj hline
  have hlines : whole ∈ Text.lines text := by
    rw [← Text.map_snd_numbered 1 (Text.lines text)]
    exact List.mem_map_of_mem hwhole
  exact fun hnewline => Text.newline_not_mem_of_mem_lines hlines (Text.mem_of_mem_trim hnewline)

/-- **What is quoted of a formula file has no newline.** -/
theorem newline_not_mem_quoted {text : String} {e : DimacsError} (h : parse text = .error e) :
    '\n' ∉ e.quoted := by
  rcases bind_eq_error_iff.1 h with hlines | ⟨draft, -, hfinish⟩
  · obtain ⟨before, ⟨n, line⟩, hmem, hline⟩ := exists_of_foldlM_eq_error hlines
    refine Draft.newline_not_mem_quoted_of_readLine (newline_not_mem_of_mem_statements hmem) hline
  · unfold Draft.finish at hfinish
    split at hfinish
    · cases hfinish
      exact List.not_mem_nil
    · split_ifs at hfinish <;> cases hfinish <;> exact List.not_mem_nil

/-- **The diagnostic about a formula file** shows the path of the file and is otherwise fit for one
line. -/
theorem shownFirst_of_load {e : LoadError} (h : load d.read path = .error e) :
    path.ShownFirst e.chain := by
  unfold load at h
  split at h
  · next failure hread =>
    cases h
    have hcause := IoFault.isLine_text (Directory.isKnown_of_text hread)
    refine ⟨?_, ?_, List.forall_mem_singleton.2 hcause⟩
    · simp [Text.toString_eq]
    · simp [Text.toString_eq, List.getLast?_cons, List.getLast?_append]
  · obtain ⟨cause, hparse, rfl⟩ := mapError_eq_error_iff.1 h
    refine ⟨?_, ?_, cause.isLine_chain (newline_not_mem_quoted hparse)⟩
    · simp [Text.toString_eq]
    · simp [Text.toString_eq, List.getLast?_cons, List.getLast?_append]

end Formula

/-! ## Hints -/

namespace Hint

variable {d : Directory} {path : Path} {e : Error}

/-- The error is a word at some place that stands for no phase. -/
theorem exists_of_readWords_eq_error {i : Nat} {words : List (List Char)}
    (h : readWords path i words = .error e) :
    ∃ word ∈ words, ∃ n, e = .badToken (String.ofList word) n path := by
  induction words generalizing i with
  | nil => cases h
  | cons word later ih =>
    rw [readWords] at h
    split at h
    · cases h
      exact ⟨word, List.mem_cons_self, i, rfl⟩
    · obtain ⟨other, hother, n, he⟩ := ih (map_eq_error_iff.1 h)
      exact ⟨other, List.mem_cons_of_mem word hother, n, he⟩

/-- **The diagnostic about a hint file** shows the path of the file and is otherwise fit for one
line. -/
theorem shownFirst_of_load {n : Nat} (h : load d.read path n = .error e) :
    path.ShownFirst e.chain := by
  -- The texts are unfolded as a definition: one of its equations is about a large number.
  unfold load at h
  split at h
  · next cause hread =>
    cases h
    have hcause : IsLine cause.text.toList :=
      IoFault.isLine_text (Directory.isKnown_of_text hread)
    refine ⟨?_, ?_, List.forall_mem_singleton.2 hcause⟩ <;> unfold Error.text <;>
      simp [Text.toString_eq, List.getLast?_cons, List.getLast?_append]
  · next cause hread =>
    cases h
    have hcause : IsLine cause.text.toList :=
      IoFault.isLine_text (Directory.isKnown_of_text hread)
    refine ⟨?_, ?_, List.forall_mem_singleton.2 hcause⟩ <;> unfold Error.text <;>
      simp [Text.toString_eq, List.getLast?_cons, List.getLast?_append]
  · rcases bind_eq_error_iff.1 h with hwords | ⟨phases, -, hcount⟩
    · obtain ⟨word, hword, k, rfl⟩ := exists_of_readWords_eq_error hwords
      have hplain := Text.newline_not_mem_of_mem_words hword
      refine ⟨?_, ?_, nofun⟩ <;> unfold Error.text <;>
        simp [Text.toString_eq, hplain, List.getLast?_cons, List.getLast?_append]
    · split at hcount <;> cases hcount
      refine ⟨?_, ?_, nofun⟩ <;> unfold Error.text <;>
        simp [Text.toString_eq, List.getLast?_cons, List.getLast?_append]

end Hint

/-! ## The line of a failure -/

namespace Solve

/-- One line starts as the report of a failure does. It is the last one and holds the texts of the
failure, and no line is a status or part of a model. -/
structure ReportedOnce (chain : List String) (output : String) : Prop where
  once : (Text.lines output.toList).countP ("c error:".toList.isPrefixOf ·) = 1
  last : (Text.lines output.toList).getLast? = some ("c error: " ++ ": ".intercalate chain).toList
  silent : ∀ line ∈ Text.lines output.toList, ¬ "s ".toList <+: line ∧ ¬ "v ".toList <+: line

variable {path : Path} {chain : List String} {output : String}

/-- **A failure is reported by one line just in case the path that it shows has no newline.** -/
theorem reportedOnce_iff (h : path.ShownFirst chain) (front : List (List Char))
    (hfront : ∀ line ∈ front, IsLine line ∧ ∃ rest, line = 'c' :: ' ' :: 'p' :: rest)
    (houtput : output.toList = front.flatMap (· ++ ['\n']) ++ (errorLine chain).toList) :
    ReportedOnce chain output ↔ Utf8.newline ∉ path.bytes := by
  constructor
  · intro hreported hpath
    -- The texts of the failure have a newline, and lines have none.
    have hlast := Text.newline_not_mem_of_mem_lines (List.mem_of_getLast? hreported.last)
    rw [String.toList_append, List.mem_append, not_or] at hlast
    exact hlast.2 (h.newline_mem_iff.2 hpath)
  · intro hpath
    have herror := h.isLine_error hpath
    have hlines : Text.lines output.toList =
        front ++ [("c error: " ++ ": ".intercalate chain).toList] := by
      have hended : output.toList =
          (front ++ [("c error: " ++ ": ".intercalate chain).toList]).flatMap (· ++ ['\n']) := by
        rw [houtput, List.flatMap_append, List.flatMap_singleton, errorLine, String.toList_append]
        rfl
      rw [hended]
      refine Text.lines_ended fun line hline => ?_
      rcases List.mem_append.1 hline with hline | hline
      · exact (hfront line hline).1
      · exact List.mem_singleton.1 hline ▸ herror
    have herrorLine : ("c error: " ++ ": ".intercalate chain).toList =
        "c error: ".toList ++ (": ".intercalate chain).toList := String.toList_append
    constructor
    · have hnone : front.countP ("c error:".toList.isPrefixOf ·) = 0 := by
        rw [List.countP_eq_zero]
        intro line hline
        obtain ⟨-, rest, rfl⟩ := hfront line hline
        simp
      rw [hlines, List.countP_append, hnone, List.countP_singleton, herrorLine]
      simp
    · rw [hlines, List.getLast?_concat]
    · intro line hline
      rw [hlines, List.mem_append, List.mem_singleton] at hline
      rcases hline with hline | rfl
      · obtain ⟨-, rest, rfl⟩ := hfront line hline
        simp
      · rw [herrorLine]
        simp

end Solve

end Polarity
