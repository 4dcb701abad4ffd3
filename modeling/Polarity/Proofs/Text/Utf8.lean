import Mathlib.Tactic.SplitIfs
import Polarity.Text.Utf8

/-!
# Texts and newlines in UTF-8

The bytes of texts put together are those of the texts one after the other, and where the bytes of a
text start with those of another one, the text does (`exists_append_of_prefix`).

A newline is one byte, and that byte is part of no other character. So a text has a newline just in
case its bytes have one (`newline_mem_encode`). This is also true of bytes that are not text and of
what is shown for them (`newline_mem_lossy`): what is begun and not finished is replaced, but the byte
that ends it is read as the first one of a character.

**What is begun is no newline** (`Partial.Sound`). All bytes that may follow have their high bit set,
and the least value that a character can end up with (`Partial.least`) is beyond the characters of one
byte. Each byte keeps this and gives a newline just in case it is one (`Partial.Sound.faithful_step`).
-/

namespace Polarity.Utf8

variable {bytes : List UInt8} {p : Partial} {s t : String}

/-- The byte of a newline. -/
def newline : UInt8 := 0x0A

/-! ## Strict reading -/

theorem encode_eq_flatMap (s : String) : encode s = s.toList.flatMap String.utf8EncodeChar := by
  conv => lhs; rw [← String.ofList_toList (s := s)]
  rw [encode, String.toUTF8_eq_toByteArray, String.toByteArray_ofList, List.utf8Encode,
    List.data_toByteArray]

theorem eq_encode_of_decode (h : decode bytes = some s) : bytes = encode s := by
  unfold decode String.fromUTF8? at h
  split at h
  · rw [← Option.some.inj h]
    rfl
  · cases h

/-- The bytes are text. -/
def IsText (bytes : List UInt8) : Prop := ∃ s, bytes = encode s

theorem isSome_decode_iff : (decode bytes).isSome = true ↔ IsText bytes := by
  rw [Option.isSome_iff_exists]
  constructor
  · rintro ⟨s, hs⟩
    exact ⟨s, eq_encode_of_decode hs⟩
  · rintro ⟨s, rfl⟩
    exact ⟨s, decode_encode s⟩

instance : DecidablePred IsText := fun _ => decidable_of_iff _ isSome_decode_iff

theorem encode_append (s t : String) : encode (s ++ t) = encode s ++ encode t := by
  simp [encode_eq_flatMap]

/-- **Bytes of one text start with those of another one only if the texts do.** -/
theorem exists_append_of_prefix (h : encode s <+: encode t) : ∃ u, t = s ++ u := by
  obtain ⟨rest, hrest⟩ := h
  have hbytes : s.toList.utf8Encode ++ rest.toByteArray = t.toList.utf8Encode := by
    apply ByteArray.ext
    apply Array.toList_inj.1
    simpa [List.utf8Encode, encode_eq_flatMap] using hrest
  obtain ⟨u, hu⟩ := List.isPrefix_of_utf8Encode_append_eq_utf8Encode _ hbytes
  refine ⟨String.ofList u, String.toList_inj.1 ?_⟩
  rw [String.toList_append, String.toList_ofList, hu]

/-- A newline is encoded by its own byte, and the bytes of other characters are others. -/
theorem newline_mem_encodeChar (c : Char) : newline ∈ String.utf8EncodeChar c ↔ c = '\n' := by
  have hbyte (n : Nat) : newline = UInt8.ofNat n ↔ n % 256 = 10 := by
    rw [← UInt8.toNat_inj, UInt8.toNat_ofNat', eq_comm]
    rfl
  have hchar : c = '\n' ↔ c.val.toNat = 10 := by
    rw [← Char.val_inj, ← UInt32.toNat_inj]
    rfl
  rw [hchar]
  unfold String.utf8EncodeChar
  simp only []
  split
  · rw [List.mem_singleton, hbyte]
    omega
  · split
    · simp only [List.mem_cons, List.not_mem_nil, or_false, hbyte]
      omega
    · split
      · simp only [List.mem_cons, List.not_mem_nil, or_false, hbyte]
        omega
      · simp only [List.mem_cons, List.not_mem_nil, or_false, hbyte]
        omega

theorem newline_mem_encode (s : String) : newline ∈ encode s ↔ '\n' ∈ s.toList := by
  simp only [encode_eq_flatMap, List.mem_flatMap, newline_mem_encodeChar, exists_eq_right]

/-! ## Lossy reading -/

theorem ofNat_eq_newline_iff (n : Nat) : Char.ofNat n = '\n' ↔ n = 10 := by
  have hnewline : '\n'.toNat = 10 := rfl
  rw [← Char.toNat_inj, hnewline]
  by_cases hvalid : n.isValidChar
  · rw [Char.ofNat, dif_pos hvalid]
    rfl
  · rw [Char.ofNat, dif_neg hvalid]
    refine iff_of_false (by decide) ?_
    rintro rfl
    exact hvalid (by decide)

namespace Partial

/-- The least value that a character can have when these bytes are awaited. -/
def least (value : Nat) (awaited : List (Nat × Nat)) : Nat :=
  awaited.foldl (fun sum range => 64 * sum + range.1 % 64) value

theorem least_le_least {m n : Nat} (hmn : m ≤ n) (awaited : List (Nat × Nat)) :
    least m awaited ≤ least n awaited := by
  induction awaited generalizing m n with
  | nil => exact hmn
  | cons range later ih => exact ih (Nat.add_le_add_right (Nat.mul_le_mul_left 64 hmn) _)

/-- Only bytes that begin no character may follow, and no character of one byte can come of it. -/
structure Sound (p : Partial) : Prop where
  range : ∀ r ∈ p.awaited, 0x80 ≤ r.1 ∧ r.2 ≤ 0xBF
  value : p.awaited = [] ∨ 0x80 ≤ least p.value p.awaited

theorem sound_idle : idle.Sound := ⟨nofun, .inl rfl⟩

/-- What is begun with a byte is sound, and a newline is completed just in case the byte is one. -/
def Faithful (b : Nat) (read : List Char × Partial) : Prop :=
  read.2.Sound ∧ ('\n' ∈ read.1 ↔ b = 10)

theorem faithful_replaced {b : Nat} (hb : 0x80 ≤ b) : Faithful b ([replacement], idle) := by
  refine ⟨sound_idle, ?_⟩
  simp [replacement]
  omega

theorem faithful_begun {b value : Nat} {awaited : List (Nat × Nat)} (hb : 0x80 ≤ b)
    (hrange : ∀ r ∈ awaited, 0x80 ≤ r.1 ∧ r.2 ≤ 0xBF) (hleast : 0x80 ≤ least value awaited) :
    Faithful b ([], ⟨value, awaited⟩) := by
  refine ⟨⟨hrange, .inr hleast⟩, ?_⟩
  simp
  omega

/-- The first byte of a character. -/
theorem faithful_start (b : Nat) : Faithful b (start b) := by
  unfold start
  split_ifs with hascii hcontinues htwo hlong hsurrogates hthree hlonger hfour hlast
  · exact ⟨sound_idle, by simp [eq_comm (a := '\n'), ofNat_eq_newline_iff]⟩
  · exact faithful_replaced (by omega)
  · exact faithful_begun (by omega) (by simp [tail]) (by simp [least, tail]; omega)
  · exact faithful_begun (by omega) (by simp [tail]) (by simp [least, tail])
  · exact faithful_begun (by omega) (by simp [tail]) (by simp [least, tail])
  · exact faithful_begun (by omega) (by simp [tail]) (by simp [least, tail]; omega)
  · exact faithful_begun (by omega) (by simp [tail]) (by simp [least, tail])
  · exact faithful_begun (by omega) (by simp [tail]) (by simp [least, tail]; omega)
  · exact faithful_begun (by omega) (by simp [tail]) (by simp [least, tail])
  · exact faithful_replaced (by omega)

/-- Any byte. -/
theorem Sound.faithful_step (hp : p.Sound) (b : Nat) : Faithful b (p.step b) := by
  obtain ⟨value, awaited⟩ := p
  cases awaited with
  | nil => exact faithful_start b
  | cons range later =>
    obtain ⟨first, last⟩ := range
    obtain ⟨hrange, hlater⟩ := List.forall_mem_cons.1 hp.range
    have hleast : 0x80 ≤ least (64 * value + first % 64) later := hp.value.resolve_left nofun
    simp only [step]
    split_ifs with hfollows hdone
    · obtain rfl : later = [] := List.isEmpty_iff.1 hdone
      have hvalue : 0x80 ≤ 64 * value + first % 64 := hleast
      refine ⟨sound_idle, ?_⟩
      simp only [List.mem_singleton, eq_comm (a := '\n'), ofNat_eq_newline_iff]
      omega
    · have hmn : 64 * value + first % 64 ≤ 64 * value + b % 64 := by omega
      exact faithful_begun (by omega) hlater (Nat.le_trans hleast (least_le_least hmn later))
    · obtain ⟨hnext, hchars⟩ := faithful_start b
      exact ⟨hnext, by simp [replacement, hchars]⟩

end Partial

theorem newline_mem_lossyFrom (hp : p.Sound) (bytes : List UInt8) :
    '\n' ∈ lossyFrom p bytes ↔ newline ∈ bytes := by
  induction bytes generalizing p with
  | nil =>
    rw [lossyFrom]
    split <;> simp [replacement]
  | cons b rest ih =>
    obtain ⟨hnext, hb⟩ := hp.faithful_step b.toNat
    have hbyte : b.toNat = 10 ↔ newline = b := by
      rw [← UInt8.toNat_inj, eq_comm]
      rfl
    rw [lossyFrom, List.mem_append, hb, hbyte, ih hnext, List.mem_cons]

/-- **What is shown for bytes has a newline just in case the bytes have one.** -/
theorem newline_mem_lossy (bytes : List UInt8) :
    '\n' ∈ (lossy bytes).toList ↔ newline ∈ bytes := by
  unfold lossy
  cases hdecode : decode bytes with
  | some s => rw [eq_encode_of_decode hdecode, newline_mem_encode]
  | none => rw [String.toList_ofList, newline_mem_lossyFrom Partial.sound_idle]

end Polarity.Utf8
