import Mathlib.Data.List.Sort
import Polarity.Proofs.Prediction.Generation
import Polarity.Proofs.Text.Lines

/-!
# Reading a list of predictions line by line

How a line is decoded is a parameter here, and what is said holds for any.

**What is read** (`ReadFrom`). There is one prediction for each line that is not blank, in the order
of the lines. It has the number of its line, for which blank lines count, and the value that the line
is decoded to. This is all that reading can give, and it succeeds unless a line that is not blank
cannot be decoded; then the first of these is named (`FirstInvalid`).

**Layout.** What is generated depends on the decoded values only (`ofPredictions_congr`), and these on
the lines that are not blank (`map_value_parseWith_congr`). So blank lines between the others make no
difference to it, and carriage returns in front of newlines make none to what is read.
-/

namespace Polarity

open Text (LineAt IsGap)

variable {decode : String → Option Json} {text other : String} {ls : List (List Char)}
  {ps qs : List Prediction} {n : Nat} {line : List Char}

namespace Prediction

/-! ## Lines that are not blank -/

theorem mem_written_iff :
    (n, line) ∈ written text ↔ LineAt (Text.lines text.toList) n line ∧ ¬ IsGap line := by
  rw [written, List.mem_filter, Text.mem_numbered_iff, ← Text.trim_eq_nil_iff]
  simp

theorem pairwise_written (text : String) : (written text).Pairwise fun k l => k.1 < l.1 :=
  (Text.pairwise_numbered _).sublist List.filter_sublist

theorem readLine_eq_ok_iff {l : Nat × List Char} {p : Prediction} :
    readLine decode l = .ok p ↔ decode (String.ofList l.2) = some p.value ∧ l.1 = p.line := by
  obtain ⟨n, line⟩ := l
  obtain ⟨m, value⟩ := p
  unfold readLine
  cases hdecode : decode (String.ofList line) with
  | none => simp [hdecode]
  | some v => simp [hdecode, and_comm]

theorem readLine_eq_error_iff {l : Nat × List Char} {e : InvalidLine} :
    readLine decode l = .error e ↔ decode (String.ofList l.2) = none ∧ l.1 = e.line := by
  obtain ⟨n, line⟩ := l
  obtain ⟨m⟩ := e
  unfold readLine
  cases hdecode : decode (String.ofList line) <;> simp [hdecode]

/-! ## What is read -/

/-- There is one prediction for each of these lines that is not blank, in the order of the lines,
with the number of its line and the value that the line is decoded to. -/
structure ReadFrom (decode : String → Option Json) (ls : List (List Char))
    (ps : List Prediction) : Prop where
  ordered : ps.Pairwise fun p q => p.line < q.line
  one_each : ∀ n, (∃ p ∈ ps, p.line = n) ↔ ∃ line, LineAt ls n line ∧ ¬ IsGap line
  decoded : ∀ p ∈ ps, ∀ line, LineAt ls p.line line →
    decode (String.ofList line) = some p.value

/-- The line with this number is the first that is neither blank nor can be decoded. -/
structure FirstInvalid (decode : String → Option Json) (ls : List (List Char)) (n : Nat) :
    Prop where
  invalid : ∃ line, LineAt ls n line ∧ ¬ IsGap line ∧ decode (String.ofList line) = none
  before : ∀ m < n, ∀ line, LineAt ls m line → ¬ IsGap line →
    ∃ value, decode (String.ofList line) = some value

theorem ReadFrom.unique (hps : ReadFrom decode ls ps) (hqs : ReadFrom decode ls qs) : ps = qs := by
  have hsubset {ps qs : List Prediction} (hps : ReadFrom decode ls ps)
      (hqs : ReadFrom decode ls qs) {p : Prediction} (hp : p ∈ ps) : p ∈ qs := by
    -- The other list has a prediction for the same line, which has the same value.
    obtain ⟨line, hline, hne⟩ := (hps.one_each p.line).1 ⟨p, hp, rfl⟩
    obtain ⟨q, hq, hnumber⟩ := (hqs.one_each p.line).2 ⟨line, hline, hne⟩
    have hvalue := (hps.decoded p hp line hline).symm.trans
      (hqs.decoded q hq line (hnumber ▸ hline))
    obtain rfl : p = q := by
      obtain ⟨m, v⟩ := p
      obtain ⟨k, w⟩ := q
      exact congrArg₂ Prediction.mk hnumber.symm (Option.some.inj hvalue)
    exact hq
  have hirrefl : Std.Irrefl fun p q : Prediction => p.line < q.line := ⟨fun p => Nat.lt_irrefl _⟩
  have hantisymm : Std.Antisymm fun p q : Prediction => p.line < q.line :=
    ⟨fun p q h h' => absurd h' (Nat.lt_asymm h)⟩
  exact hps.ordered.eq_of_mem_iff hqs.ordered fun p => ⟨hsubset hps hqs, hsubset hqs hps⟩

theorem readFrom_of_parseWith (h : parseWith decode text = .ok ps) :
    ReadFrom decode (Text.lines text.toList) ps := by
  have hread : List.Forall₂ (fun l p => readLine decode l = .ok p) (written text) ps :=
    mapM_eq_ok_iff.1 h
  simp only [readLine_eq_ok_iff] at hread
  have hnumbers : (written text).map Prod.fst = ps.map Prediction.line := by
    rw [← List.forall₂_eq_eq_eq, List.forall₂_map_left_iff, List.forall₂_map_right_iff]
    exact hread.imp fun _ _ h => h.2
  have hmem {p : Prediction} (hp : p ∈ ps) :
      ∃ l ∈ written text, decode (String.ofList l.2) = some p.value ∧ l.1 = p.line := by
    obtain ⟨i, hi, rfl⟩ := List.getElem_of_mem hp
    have hi' : i < (written text).length := hread.length_eq ▸ hi
    exact ⟨_, List.getElem_mem hi', hread.get hi' hi⟩
  refine ⟨?_, fun n => ?_, fun p hp line hline => ?_⟩
  · rw [← List.pairwise_map, ← hnumbers, List.pairwise_map]
    exact pairwise_written text
  · have hn : n ∈ ps.map Prediction.line ↔ n ∈ (written text).map Prod.fst := by rw [hnumbers]
    simpa [mem_written_iff] using hn
  · obtain ⟨⟨n, line'⟩, hl, hdecode, rfl⟩ := hmem hp
    rwa [hline.unique (mem_written_iff.1 hl).1]

theorem firstInvalid_of_parseWith {e : InvalidLine} (h : parseWith decode text = .error e) :
    FirstInvalid decode (Text.lines text.toList) e.line := by
  obtain ⟨before, ⟨n, line⟩, after, hsplit, hinvalid, hbefore⟩ :=
    exists_of_mapM_eq_error (l := written text) h
  obtain ⟨hdecode, rfl⟩ := readLine_eq_error_iff.1 hinvalid
  have hmem : (e.line, line) ∈ written text := by simp [hsplit]
  refine ⟨⟨line, (mem_written_iff.1 hmem).1, (mem_written_iff.1 hmem).2, hdecode⟩, ?_⟩
  intro m hm earlier hearlier hne
  have hordered := pairwise_written text
  have hfound := mem_written_iff.2 ⟨hearlier, hne⟩
  rw [hsplit] at hordered hfound
  -- No line behind the first invalid one has a smaller number, nor has that line itself.
  rcases List.mem_append.1 hfound with hearly | hlate
  · obtain ⟨p, hp⟩ := hbefore _ hearly
    exact ⟨p.value, (readLine_eq_ok_iff.1 hp).1⟩
  · have hlater := (List.pairwise_append.1 hordered).2.1
    rcases List.mem_cons.1 hlate with heq | hlate
    · exact absurd (congrArg Prod.fst heq) hm.ne
    · exact absurd (List.rel_of_pairwise_cons hlater hlate) (Nat.lt_asymm hm)

theorem ReadFrom.not_firstInvalid (hps : ReadFrom decode ls ps) : ¬ FirstInvalid decode ls n := by
  rintro ⟨⟨line, hline, hne, hdecode⟩, -⟩
  obtain ⟨p, hp, rfl⟩ := (hps.one_each n).2 ⟨line, hline, hne⟩
  exact absurd (hps.decoded p hp line hline) (by simp [hdecode])

theorem FirstInvalid.le {m : Nat} (hm : FirstInvalid decode ls m) (hn : FirstInvalid decode ls n) :
    m ≤ n := by
  by_contra hlt
  obtain ⟨line, hline, hne, hdecode⟩ := hn.invalid
  obtain ⟨value, hvalue⟩ := hm.before n (Nat.not_le.1 hlt) line hline hne
  exact absurd hvalue (by simp [hdecode])

/-- **What is read is one prediction for each line that is not blank.** -/
theorem parseWith_eq_ok_iff :
    parseWith decode text = .ok ps ↔ ReadFrom decode (Text.lines text.toList) ps := by
  constructor
  · exact readFrom_of_parseWith
  · intro h
    cases hparse : parseWith decode text with
    | ok qs => rw [h.unique (readFrom_of_parseWith hparse)]
    | error e => exact absurd (firstInvalid_of_parseWith hparse) h.not_firstInvalid

/-- **The error names the first line that is neither blank nor can be decoded.** -/
theorem parseWith_eq_error_iff {e : InvalidLine} :
    parseWith decode text = .error e ↔ FirstInvalid decode (Text.lines text.toList) e.line := by
  constructor
  · exact firstInvalid_of_parseWith
  · intro h
    cases hparse : parseWith decode text with
    | ok ps => exact absurd h (readFrom_of_parseWith hparse).not_firstInvalid
    | error e' =>
      have h' := firstInvalid_of_parseWith hparse
      obtain ⟨m⟩ := e
      obtain ⟨n⟩ := e'
      obtain rfl : n = m := Nat.le_antisymm (h'.le h) (h.le h')
      rfl

/-- Reading succeeds when each line that is not blank can be decoded. -/
theorem exists_parseWith_iff :
    (∃ ps, parseWith decode text = .ok ps) ↔
      ∀ n line, LineAt (Text.lines text.toList) n line → ¬ IsGap line →
        ∃ value, decode (String.ofList line) = some value := by
  constructor
  · rintro ⟨ps, h⟩ n line hline hne
    have hread := parseWith_eq_ok_iff.1 h
    obtain ⟨p, hp, rfl⟩ := (hread.one_each n).2 ⟨line, hline, hne⟩
    exact ⟨p.value, hread.decoded p hp line hline⟩
  · intro h
    cases hparse : parseWith decode text with
    | ok ps => exact ⟨ps, rfl⟩
    | error e =>
      obtain ⟨line, hline, hne, hdecode⟩ := (parseWith_eq_error_iff.1 hparse).invalid
      obtain ⟨value, hvalue⟩ := h _ line hline hne
      exact absurd hvalue (by simp [hdecode])

/-! ## Values alone -/

theorem map_value_mapM_readLine (l : List (Nat × List Char)) :
    (l.mapM (readLine decode)).toOption.map (List.map Prediction.value) =
      (l.map Prod.snd).mapM fun line => decode (String.ofList line) := by
  induction l with
  | nil => rfl
  | cons numbered l ih =>
    obtain ⟨n, line⟩ := numbered
    rw [List.mapM_cons, List.map_cons, List.mapM_cons, ← ih, readLine]
    cases decode (String.ofList line) with
    | none => rfl
    | some value => cases l.mapM (readLine decode) <;> rfl

/-- The values that are decoded depend on the lines that are not blank only. -/
theorem map_value_parseWith_congr
    (h : (Text.lines other.toList).filter (fun line => !(Text.trim line).isEmpty) =
      (Text.lines text.toList).filter fun line => !(Text.trim line).isEmpty) :
    (parseWith decode other).toOption.map (List.map Prediction.value) =
      (parseWith decode text).toOption.map (List.map Prediction.value) := by
  rw [← map_snd_written, ← map_snd_written] at h
  calc
    _ = ((written other).map Prod.snd).mapM fun line => decode (String.ofList line) :=
      map_value_mapM_readLine _
    _ = ((written text).map Prod.snd).mapM fun line => decode (String.ofList line) := by rw [h]
    _ = _ := (map_value_mapM_readLine _).symm

end Prediction

namespace Generated

/-- The prediction moved to line zero. -/
def unnumbered (p : Prediction) : Prediction := ⟨0, p.value⟩

theorem kept_map_unnumbered (ps : List Prediction) (vars : Nat) (fraction : Option Double) :
    kept (ps.map unnumbered) vars fraction =
      (kept ps vars fraction).map (List.map unnumbered) := by
  cases fraction with
  | none => rfl
  | some x =>
    by_cases hx : Accepted x
    · rw [kept_eq_ok hx.of_mem, kept_eq_ok hx.of_mem, List.length_map, ← List.map_take]
      rfl
    · rw [kept_eq_error hx, kept_eq_error hx]
      rfl

theorem ofPredictions_map_unnumbered (ps : List Prediction) (fraction : Option Double) :
    ofPredictions (ps.map unnumbered) fraction = ofPredictions ps fraction := by
  have hindices : (ps.map unnumbered).filterMap Prediction.index? =
      ps.filterMap Prediction.index? := by
    rw [List.filterMap_map]
    rfl
  have hfold (used : List Prediction) (g : Generated) :
      (used.map unnumbered).foldl add g = used.foldl add g := by
    rw [List.foldl_map]
    rfl
  unfold ofPredictions
  simp only [hindices, kept_map_unnumbered]
  split
  · rfl
  · next index _ =>
    refine congrArg _ (funext fun vars => ?_)
    cases kept ps vars fraction with
    | error e => rfl
    | ok used => exact congrArg Except.ok (hfold used _)

/-- **What is generated depends on the values of the predictions only.** -/
theorem ofPredictions_congr (h : qs.map Prediction.value = ps.map Prediction.value)
    (fraction : Option Double) : ofPredictions qs fraction = ofPredictions ps fraction := by
  have hunnumbered (ps : List Prediction) :
      ps.map unnumbered = (ps.map Prediction.value).map (Prediction.mk 0) := by
    rw [List.map_map]
    rfl
  rw [← ofPredictions_map_unnumbered qs, ← ofPredictions_map_unnumbered ps, hunnumbered qs,
    hunnumbered ps, h]

end Generated

/-! ## Other layouts -/

namespace Prediction

/-- Both texts are read, or none is, and what is read from them has the same values and generates
the same hint. -/
structure ReadAlike (decode : String → Option Json) (text other : String) : Prop where
  both : (∃ qs, parseWith decode other = .ok qs) ↔ ∃ ps, parseWith decode text = .ok ps
  values : ∀ ps qs, parseWith decode text = .ok ps → parseWith decode other = .ok qs →
    qs.map value = ps.map value
  generated : ∀ ps qs, parseWith decode text = .ok ps → parseWith decode other = .ok qs →
    ∀ fraction, Generated.ofPredictions qs fraction = Generated.ofPredictions ps fraction

theorem readAlike_of_values
    (h : (parseWith decode other).toOption.map (List.map value) =
      (parseWith decode text).toOption.map (List.map value)) : ReadAlike decode text other := by
  have hvalues (ps qs : List Prediction) (hps : parseWith decode text = .ok ps)
      (hqs : parseWith decode other = .ok qs) : qs.map value = ps.map value := by
    simpa [hps, hqs, Except.toOption] using h
  refine ⟨?_, hvalues, fun ps qs hps hqs => Generated.ofPredictions_congr (hvalues ps qs hps hqs)⟩
  cases hps : parseWith decode text <;> cases hqs : parseWith decode other <;>
    simp [hps, hqs, Except.toOption] at h ⊢

/-- Blank lines that are put in between the others, one after another. -/
theorem readAlike_of_padded (decode : String → Option Json)
    (h : Relation.ReflTransGen Text.Padded text.toList other.toList) :
    ReadAlike decode text other := by
  refine readAlike_of_values (map_value_parseWith_congr ?_)
  generalize other.toList = padded at h
  induction h with
  | refl => rfl
  | tail _ hstep ih => exact (Text.filter_lines_of_padded hstep).trans ih

/-- Carriage returns that are put in front of newlines. -/
theorem parseWith_withReturns (decode : String → Option Json) (text : String) :
    parseWith decode (String.ofList (Text.withReturns text.toList)) = parseWith decode text := by
  unfold parseWith
  rw [String.toList_ofList, Text.lines_withReturns]

/-- **Predictions are read line by line.** A text is read exactly if each line that is not blank can
be decoded. There is then one prediction for each of these lines, with the line's number and value,
and otherwise the first line that cannot be decoded is named. Blank lines between the lines change
neither the values nor what is generated from them, and carriage returns before newlines change
nothing. -/
theorem parse_by_lines (decode : String → Option Json) (text : String) :
    ∃ ls, Text.Lined ls text.toList ∧
      ((∃ ps, parseWith decode text = .ok ps) ↔
        ∀ n line, LineAt ls n line → ¬ IsGap line →
          ∃ value, decode (String.ofList line) = some value) ∧
      (∀ ps, parseWith decode text = .ok ps ↔ ReadFrom decode ls ps) ∧
      (∀ e, parseWith decode text = .error e ↔ FirstInvalid decode ls e.line) ∧
      (∀ other, Relation.ReflTransGen Text.Padded text.toList other.toList →
        ReadAlike decode text other) ∧
      parseWith decode (String.ofList (Text.withReturns text.toList)) = parseWith decode text :=
  ⟨Text.lines text.toList, Text.lines_eq_iff.1 rfl, exists_parseWith_iff,
    fun _ => parseWith_eq_ok_iff, fun _ => parseWith_eq_error_iff,
    fun _ => readAlike_of_padded decode, parseWith_withReturns decode text⟩

/-- Two blank lines between two others, the first with a blank that is no space of JSON. -/
theorem parse_by_lines_gap :
    ReadAlike Json.parse? "{}\nnull" "{}\n \u00a0\n\nnull" ∧
      (parse "{}\nnull").toOption.map (List.map Prediction.line) = some [1, 2] ∧
      (parse "{}\n \u00a0\n\nnull").toOption.map (List.map Prediction.line) = some [1, 4] := by
  obtain ⟨-, -, -, -, -, hpadded, -⟩ := parse_by_lines Json.parse? "{}\nnull"
  refine ⟨hpadded _ (.single ?_), by decide +kernel, by decide +kernel⟩
  have hended : Text.IsEnded ['{', '}', '\n'] := by simp [Text.IsEnded]
  have hblanks : [' ', '\u00a0', '\n'].all Text.isBlank = true := by decide
  have hgap : IsGap [' ', '\u00a0', '\n'] := List.all_eq_true.1 hblanks
  exact @Text.Padded.intro _ _ ['n', 'u', 'l', 'l'] hended hgap

end Prediction

end Polarity
