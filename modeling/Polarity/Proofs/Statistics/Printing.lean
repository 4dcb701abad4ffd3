import Mathlib.Data.Nat.Digits.Defs
import Mathlib.Data.String.Basic
import Mathlib.Data.String.Lemmas
import Polarity.Statistics.Basic

/-!
# Both printers write the same

The buffer of the printer that is used while a signal is handled takes a piece as a whole or not at
all, and nothing after a piece that it has not taken. If all pieces together have room, what it holds
in the end is all of their text (`Buffer.print_eq`).

**The report has room.** A counter is a word of 64 bits and so has at most 20 digits
(`length_toString_le`). It stands in the 12 columns on the right of its line, or is longer than these
and stands there in full (`join_line`), so that a line is at most 21 bytes longer than its label
(`utf8ByteSize_join_line_le`). Whatever the counters are, the report fits into the buffer
(`utf8ByteSize_text_le`), and both printers write the same (`signalText_eq_text`).
-/

namespace Polarity

namespace Buffer

/-- **Pieces that have room are all taken.** -/
theorem writeAll_eq (pieces : List String) (b : Buffer)
    (hroom : b.size + (String.join pieces).utf8ByteSize ≤ capacity) :
    writeAll pieces b = ⟨b.text ++ String.join pieces⟩ := by
  induction pieces generalizing b with
  | nil => simp [writeAll, String.join]
  | cons piece later ih =>
    rw [String.join_cons, String.utf8ByteSize_append] at hroom
    have htaken : b.write piece = (true, ⟨b.text ++ piece⟩) := if_pos (by omega)
    have hsize : size ⟨b.text ++ piece⟩ = b.size + piece.utf8ByteSize := String.utf8ByteSize_append
    simp only [writeAll, htaken]
    rw [ih _ (by omega), String.join_cons, String.append_assoc]

theorem print_eq {pieces : List String} (hroom : (String.join pieces).utf8ByteSize ≤ capacity) :
    print pieces = String.join pieces := by
  have hempty : size {} = 0 := rfl
  rw [print, writeAll_eq pieces {} (by omega), flush, String.empty_append]

end Buffer

namespace Statistics

variable (label : String) (count : UInt64)

/-! ## Lines -/

/-- A counter stands in its columns from the right. -/
theorem join_line :
    String.join (line label count) =
      label ++ String.leftpad columns ' ' (toString count.toNat) ++ "\n" := by
  apply String.toList_inj.1
  simp [line, String.toList_join, String.leftpad, List.leftpad, List.flatMap_replicate,
    ← String.length_toList]

theorem length_toString_le : (toString count.toNat).length ≤ 20 :=
  Nat.repr_length _ _ (by decide) (count.toNat_lt.trans (by decide))

/-- A text of ASCII characters has as many bytes as characters. -/
theorem utf8ByteSize_eq_length {s : String} (hs : ∀ c ∈ s.toList, c.utf8Size = 1) :
    s.utf8ByteSize = s.length := by
  obtain ⟨cs, rfl⟩ : ∃ cs, s = String.ofList cs := ⟨s.toList, String.ofList_toList.symm⟩
  rw [String.toList_ofList] at hs
  rw [String.utf8ByteSize_ofList, String.length_ofList]
  induction cs with
  | nil => rfl
  | cons c later ih =>
    rw [List.forall_mem_cons] at hs
    rw [String.utf8Len_cons, ih hs.2, hs.1, List.length_cons]

theorem utf8Size_of_isDigit {c : Char} (hc : c.isDigit = true) : c.utf8Size = 1 := by
  rw [Char.utf8Size_eq_one_iff]
  simp only [Char.isDigit, Bool.and_eq_true, decide_eq_true_eq] at hc
  exact UInt32.le_trans hc.2 (by decide)

/-- **No line is longer than its label and 21 bytes more.** -/
theorem utf8ByteSize_join_line_le :
    (String.join (line label count)).utf8ByteSize ≤ label.utf8ByteSize + 21 := by
  have hascii : ∀ c ∈ (String.leftpad columns ' ' (toString count.toNat)).toList,
      c.utf8Size = 1 := by
    intro c hc
    rw [String.leftpad, String.toList_ofList, List.leftpad, List.mem_append] at hc
    rcases hc with hc | hc
    · rw [List.eq_of_mem_replicate hc]
      rfl
    · exact utf8Size_of_isDigit (Nat.isDigit_of_mem_toDigits (by decide) (by decide)
        (Nat.toList_repr ▸ hc))
  have hlength : (String.leftpad columns ' ' (toString count.toNat)).length ≤ 20 := by
    rw [String.length_leftpad, max_le_iff]
    exact ⟨by decide, length_toString_le count⟩
  have hnewline : "\n".utf8ByteSize = 1 := rfl
  rw [join_line, String.utf8ByteSize_append, String.utf8ByteSize_append,
    utf8ByteSize_eq_length hascii]
  omega

/-! ## The report -/

theorem utf8ByteSize_text_le (s : Statistics) : s.text.utf8ByteSize ≤ Buffer.capacity := by
  have hdecisions := utf8ByteSize_join_line_le "c decisions:    " s.decisions
  have hconflicts := utf8ByteSize_join_line_le "c conflicts:    " s.conflicts
  have hpropagations := utf8ByteSize_join_line_le "c propagations: " s.propagations
  have hlabels : "c decisions:    ".utf8ByteSize = 16 ∧ "c conflicts:    ".utf8ByteSize = 16 ∧
      "c propagations: ".utf8ByteSize = 16 := ⟨rfl, rfl, rfl⟩
  rw [text, pieces, String.join_append, String.join_append, String.utf8ByteSize_append,
    String.utf8ByteSize_append]
  unfold Buffer.capacity
  omega

/-- **Both printers write the same**, whatever the counters are. -/
theorem signalText_eq_text (s : Statistics) : s.signalText = s.text :=
  Buffer.print_eq s.utf8ByteSize_text_le

end Statistics

end Polarity
