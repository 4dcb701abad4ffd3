/-!
# UTF-8

Texts and the byte lists that hold them.

**Strict reading.** `decode` reads a byte list that is UTF-8 as a whole and refuses all others;
`decode_encode` says that it undoes `encode`.

**Lossy reading.** `lossy` always gives a text. A byte that cannot continue a character ends it:
the bytes of a character that was begun and not finished, like every byte that begins none, are
shown as one replacement character. It reads byte by byte; `Partial` is what has been read of the
present character and which bytes may follow.
-/

namespace Polarity.Utf8

/-- The bytes of a text. -/
def encode (s : String) : List UInt8 :=
  s.toUTF8.data.toList

/-- The text that the bytes hold, if they are UTF-8. -/
def decode (bytes : List UInt8) : Option String :=
  String.fromUTF8? ⟨bytes.toArray⟩

theorem decode_encode (s : String) : decode (encode s) = some s := by
  have h : (⟨(encode s).toArray⟩ : ByteArray) = s.toByteArray := by simp [encode]
  rw [decode, h, String.fromUTF8?, dif_pos s.isValidUTF8]
  rfl

/-- The character that stands for bytes that are not text. -/
def replacement : Char := '\uFFFD'

/-- A character of which some bytes are read: its value so far, and for each byte to come the
least and the greatest that may stand there. Between characters nothing is awaited. -/
structure Partial where
  value : Nat
  awaited : List (Nat × Nat)

/-- Between two characters. -/
def Partial.idle : Partial := ⟨0, []⟩

/-- Any byte that continues a character. -/
def Partial.tail : Nat × Nat := (0x80, 0xBF)

/-- Read the first byte of a character. The bounds on the second byte leave out the long forms of
small values, the surrogates, and what lies beyond the last character. -/
def Partial.start (b : Nat) : List Char × Partial :=
  if b < 0x80 then ([Char.ofNat b], idle)
  else if b < 0xC2 then ([replacement], idle)
  else if b < 0xE0 then ([], ⟨b - 0xC0, [tail]⟩)
  else if b = 0xE0 then ([], ⟨0, [(0xA0, 0xBF), tail]⟩)
  else if b = 0xED then ([], ⟨13, [(0x80, 0x9F), tail]⟩)
  else if b < 0xF0 then ([], ⟨b - 0xE0, [tail, tail]⟩)
  else if b = 0xF0 then ([], ⟨0, [(0x90, 0xBF), tail, tail]⟩)
  else if b < 0xF4 then ([], ⟨b - 0xF0, [tail, tail, tail]⟩)
  else if b = 0xF4 then ([], ⟨4, [(0x80, 0x8F), tail, tail]⟩)
  else ([replacement], idle)

/-- Read one byte: the characters it completes, and what is then begun. -/
def Partial.step (p : Partial) (b : Nat) : List Char × Partial :=
  match p.awaited with
  | [] => start b
  | (least, greatest) :: later =>
    if least ≤ b ∧ b ≤ greatest then
      let value := 64 * p.value + b % 64
      if later.isEmpty then ([Char.ofNat value], idle) else ([], ⟨value, later⟩)
    else
      let (chars, next) := start b
      (replacement :: chars, next)

/-- The characters of the bytes that follow what `p` has read. -/
def lossyFrom (p : Partial) : List UInt8 → List Char
  | [] => if p.awaited.isEmpty then [] else [replacement]
  | b :: rest =>
    let (chars, next) := p.step b.toNat
    chars ++ lossyFrom next rest

/-- The bytes as a text for a reader's eyes: the text they hold, or else the nearest there is. -/
def lossy (bytes : List UInt8) : String :=
  match decode bytes with
  | some s => s
  | none => String.ofList (lossyFrom .idle bytes)

theorem lossy_encode (s : String) : lossy (encode s) = s := by
  rw [lossy, decode_encode]

end Polarity.Utf8
