import Polarity.Json.Parser
import Polarity.Proofs.Text.Numerals

/-!
# Reading objects of counts

**Theorem (`parse_objectText`).** The text of an object whose fields are counts reads back as this
object.

The parts of a text are taken off its front one after the other, so for each part it is said what the
reader takes when something follows that is not of this part: a comma or a closing bracket after a
count (`EndsMember`), a quote after a name. For the fields the induction is on the list of them, with
one unit of the reader's bound for each.
-/

namespace Polarity.Json

variable {α β : Type} {c : Char} {bound depth n : Nat} {name rest s : List Char}

/-- A character that stands after a member of an array or object. -/
def EndsMember (c : Char) : Prop := c = ',' ∨ c = ']' ∨ c = '\x7d'

/-- A name that is written without escapes. -/
def IsPlain (name : List Char) : Prop := ∀ c ∈ name, c ≠ '"' ∧ c ≠ '\\' ∧ 0x20 ≤ c.toNat

instance (name : List Char) : Decidable (IsPlain name) := List.decidableBAll _ name

/-- The text of a field that is a count. -/
def fieldText (field : String × Nat) : List Char :=
  '"' :: field.1.toList ++ '"' :: ':' :: ' ' :: Nat.toDigits 10 field.2

/-- The text of an object whose fields are counts. -/
def objectText (fields : List (String × Nat)) : List Char :=
  '\x7b' :: [',', ' '].intercalate (fields.map fieldText) ++ ['\x7d']

/-- The object whose fields are counts. -/
def ofCounts (fields : List (String × Nat)) : Json :=
  object (fields.map fun (name, n) => (name, count n))

theorem skipSpace_cons (hc : isSpace c = false) (rest : List Char) :
    skipSpace (c :: rest) = c :: rest :=
  List.dropWhile_cons_of_neg (by simp [hc])

theorem skipSpace_space (rest : List Char) : skipSpace (' ' :: rest) = skipSpace rest := rfl

theorem EndsMember.isSpace_eq (h : EndsMember c) : isSpace c = false := by
  rcases h with rfl | rfl | rfl <;> decide

/-! ## Counts -/

theorem readWhole_toDigits (hc : c.isDigit = false) :
    readWhole (Nat.toDigits 10 n ++ c :: rest) = some (Nat.toDigits 10 n, c :: rest) := by
  rw [readWhole, Numeral.readDigits_append (Numeral.spells_toDigits n).isDigit hc]
  rcases Nat.eq_zero_or_pos n with rfl | hn
  · rfl
  · obtain ⟨d, later, hdigits, hd⟩ := Numeral.toDigits_of_pos hn
    rw [hdigits]
    simp [hd]

theorem readMagnitude_toDigits (hn : n ≤ Numeral.word) (hc : EndsMember c) :
    readMagnitude false (Nat.toDigits 10 n ++ c :: rest) = some (count n, c :: rest) := by
  have hwhole : readWhole (Nat.toDigits 10 n ++ c :: rest) = some (Nat.toDigits 10 n, c :: rest) :=
    readWhole_toDigits (by rcases hc with rfl | rfl | rfl <;> decide)
  have hfraction : readFraction (c :: rest) = some ([], c :: rest) := by
    rcases hc with rfl | rfl | rfl <;> rfl
  have hexponent : readExponent (c :: rest) = some (none, c :: rest) := by
    rcases hc with rfl | rfl | rfl <;> rfl
  simp [readMagnitude, hwhole, hfraction, hexponent, (Numeral.spells_toDigits n).value_eq, hn]

/-- A value that starts with a digit is a number without a sign. -/
theorem readValue_of_isDigit {d : Char} (hd : d.isDigit = true) :
    readValue depth (d :: s) = readMagnitude false (d :: s) := by
  have hne {e : Char} (he : e.isDigit = false) : d ≠ e := by
    rintro rfl
    rw [hd] at he
    cases he
  have hspace : skipSpace (d :: s) = d :: s := by
    refine skipSpace_cons ?_ s
    simp [isSpace, hne]
  unfold readValue
  rw [hspace]
  simp [readNumber, hne]

theorem readValue_space (depth : Nat) (s : List Char) :
    readValue depth (' ' :: s) = readValue depth s := by
  unfold readValue
  rw [skipSpace_space]

theorem readValue_toDigits (hn : n ≤ Numeral.word) (hc : EndsMember c) :
    readValue depth (Nat.toDigits 10 n ++ c :: rest) = some (count n, c :: rest) := by
  obtain ⟨d, later, hdigits, hd⟩ := Numeral.exists_toDigits_eq_cons n
  rw [← readMagnitude_toDigits hn hc, hdigits]
  exact readValue_of_isDigit hd

/-! ## Names -/

theorem readChars_append (hname : IsPlain name) (hbound : name.length ≤ bound) :
    readChars bound (name ++ '"' :: rest) = some (name, rest) := by
  induction name generalizing bound with
  | nil => cases bound <;> rfl
  | cons c name ih =>
    obtain ⟨⟨hquote, hescape, hcontrol⟩, hname⟩ := List.forall_mem_cons.1 hname
    cases bound with
    | zero => cases hbound
    | succ bound =>
      have hchar : readChar (c :: (name ++ '"' :: rest)) = some (c, name ++ '"' :: rest) := by
        simp [readChar, hescape, Nat.not_lt.2 hcontrol]
      have hlater := ih hname (Nat.le_of_succ_le_succ hbound)
      simp [readChars, hquote, hchar, hlater]

theorem readText_append {name : String} (hname : IsPlain name.toList) :
    readText (name.toList ++ '"' :: rest) = some (name, rest) := by
  simp [readText, readChars_append hname]

/-! ## Members -/

theorem readField_space (value : List Char → Option (Json × List Char)) (s : List Char) :
    readField value (' ' :: s) = readField value s := by
  rw [readField, readField, skipSpace_space]

theorem readField_fieldText {field : String × Nat} (hname : IsPlain field.1.toList)
    (hcount : field.2 ≤ Numeral.word) (hc : EndsMember c) :
    readField (readValue depth) (fieldText field ++ c :: rest) =
      some ((field.1, count field.2), c :: rest) := by
  have htext : fieldText field ++ c :: rest =
      '"' :: (field.1.toList ++ '"' :: ':' :: ' ' :: (Nat.toDigits 10 field.2 ++ c :: rest)) := by
    simp [fieldText]
  have hvalue : readValue depth (' ' :: (Nat.toDigits 10 field.2 ++ c :: rest)) =
      some (count field.2, c :: rest) := by
    rw [readValue_space, readValue_toDigits hcount hc]
  rw [htext, readField, skipSpace_cons (by decide)]
  simp [readText_append hname, skipSpace_cons (c := ':') (by decide), hvalue]

theorem readMembers_space {member : List Char → Option (α × List Char)}
    (hspace : ∀ s, member (' ' :: s) = member s) (close : Char) (bound : Nat) (s : List Char) :
    readMembers member close bound (' ' :: s) = readMembers member close bound s := by
  cases bound with
  | zero => rfl
  | succ bound => rw [readMembers, readMembers, hspace]

/-- Members that are read one by one are read from the text that has commas between them. -/
theorem readMembers_intercalate {member : List Char → Option (α × List Char)} {close : Char}
    {write : β → List Char} {value : β → α} (hclose : EndsMember close) (hcomma : close ≠ ',')
    (hspace : ∀ s, member (' ' :: s) = member s) {members : List β} (hne : members ≠ [])
    (hmember : ∀ b ∈ members, ∀ c rest, EndsMember c →
      member (write b ++ c :: rest) = some (value b, c :: rest))
    (hbound : members.length ≤ bound) :
    readMembers member close bound ([',', ' '].intercalate (members.map write) ++ close :: rest) =
      some (members.map value, rest) := by
  induction members generalizing bound with
  | nil => exact absurd rfl hne
  | cons first later ih =>
    obtain ⟨hfirst, hlater⟩ := List.forall_mem_cons.1 hmember
    cases bound with
    | zero => cases hbound
    | succ bound =>
      cases later with
      | nil => simp [readMembers, hfirst _ _ hclose, skipSpace_cons hclose.isSpace_eq]
      | cons second later =>
        have htext : [',', ' '].intercalate ((first :: second :: later).map write) ++ close :: rest =
            write first ++ ',' :: ' ' :: ([',', ' '].intercalate ((second :: later).map write) ++
              close :: rest) := by simp
        have hnext := ih (List.cons_ne_nil second later) hlater (Nat.le_of_succ_le_succ hbound)
        rw [← readMembers_space hspace] at hnext
        generalize [',', ' '].intercalate ((second :: later).map write) ++ close :: rest = tail
          at htext hnext
        rw [htext]
        simp [readMembers, hfirst _ _ (Or.inl rfl), skipSpace_cons (c := ',') (by decide), hnext]

theorem length_le_length_intercalate {ws : List (List Char)} (h : ∀ w ∈ ws, w ≠ []) :
    ws.length ≤ ([',', ' '].intercalate ws).length := by
  induction ws with
  | nil => exact Nat.zero_le _
  | cons w ws ih =>
    obtain ⟨hw, hws⟩ := List.forall_mem_cons.1 h
    have hpos := List.length_pos_iff.2 hw
    have hle := ih hws
    cases ws with
    | nil => simpa using Nat.succ_le_of_lt hpos
    | cons v ws =>
      simp only [List.length_cons, List.intercalate_cons_cons, List.length_append] at hle ⊢
      omega

/-- Members that start with neither space nor the closing character are read as a list. -/
theorem readList_intercalate {member : List Char → Option (α × List Char)} {close : Char}
    {write : β → List Char} {value : β → α} (hclose : EndsMember close) (hcomma : close ≠ ',')
    (hspace : ∀ s, member (' ' :: s) = member s) {members : List β}
    (hmember : ∀ b ∈ members, ∀ c rest, EndsMember c →
      member (write b ++ c :: rest) = some (value b, c :: rest))
    (hstart : ∀ b ∈ members, ∃ c later, write b = c :: later ∧ isSpace c = false ∧ c ≠ close) :
    readList member close ([',', ' '].intercalate (members.map write) ++ close :: rest) =
      some (members.map value, rest) := by
  cases members with
  | nil => simp [readList, skipSpace_cons hclose.isSpace_eq]
  | cons first later =>
    have hne : ∀ w ∈ (first :: later).map write, w ≠ [] := by
      simp only [List.forall_mem_map]
      intro b hb
      obtain ⟨c, tail, hwrite, -⟩ := hstart b hb
      simp [hwrite]
    have hbound : (first :: later).length ≤
        ([',', ' '].intercalate ((first :: later).map write) ++ close :: rest).length := by
      have hle := length_le_length_intercalate hne
      rw [List.length_map] at hle
      rw [List.length_append]
      omega
    have hread : readMembers member close _ _ = some (_, rest) :=
      readMembers_intercalate hclose hcomma hspace (List.cons_ne_nil first later) hmember hbound
    obtain ⟨c, tail, hwrite, hc, hne⟩ := hstart first List.mem_cons_self
    obtain ⟨body, hbody⟩ : ∃ body,
        [',', ' '].intercalate ((first :: later).map write) ++ close :: rest = c :: body := by
      cases later <;> simp [hwrite]
    rw [hbody] at hread ⊢
    rw [readList, skipSpace_cons hc]
    simp only [if_neg hne, hread]

/-! ## Objects -/

theorem head?_objectText (fields : List (String × Nat)) :
    (objectText fields).head? = some '\x7b' := rfl

theorem getLast?_objectText (fields : List (String × Nat)) :
    (objectText fields).getLast? = some '\x7d' :=
  List.getLast?_concat

theorem readValue_objectText {fields : List (String × Nat)}
    (hname : ∀ field ∈ fields, IsPlain field.1.toList)
    (hcount : ∀ field ∈ fields, field.2 ≤ Numeral.word) (depth : Nat) (rest : List Char) :
    readValue (depth + 1) (objectText fields ++ rest) = some (ofCounts fields, rest) := by
  have hfields : readList (readField (readValue depth)) '\x7d'
      ([',', ' '].intercalate (fields.map fieldText) ++ '\x7d' :: rest) =
        some (fields.map fun field => (field.1, count field.2), rest) := by
    refine readList_intercalate (Or.inr (Or.inr rfl)) (by decide) (readField_space _)
      (fun field hfield c rest hc => ?_) fun field _ => ?_
    · exact readField_fieldText (hname field hfield) (hcount field hfield) hc
    · exact ⟨'"', _, rfl, by decide, by decide⟩
  have htext : objectText fields ++ rest =
      '\x7b' :: ([',', ' '].intercalate (fields.map fieldText) ++ '\x7d' :: rest) := by
    simp [objectText]
  rw [htext]
  unfold readValue
  rw [skipSpace_cons (by decide)]
  simp [hfields, ofCounts]

/-- **Objects of counts read back.** -/
theorem parse_objectText {fields : List (String × Nat)}
    (hname : ∀ field ∈ fields, IsPlain field.1.toList)
    (hcount : ∀ field ∈ fields, field.2 ≤ Numeral.word) :
    parse? (String.ofList (objectText fields)) = some (ofCounts fields) := by
  have hread := readValue_objectText hname hcount 126 []
  rw [List.append_nil] at hread
  simp [parse?, depthLimit, hread, skipSpace]

end Polarity.Json
