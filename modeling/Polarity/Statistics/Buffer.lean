import Polarity.Text.Utf8

/-!
# A buffer of fixed size

Text that is printed while a signal is handled is put together in a buffer of fixed size first. A
piece of text is taken as a whole or not at all, so that a text that is too long loses whole
pieces and never a part of a character.

**Handing out.** `flush` hands out the text in one go. A system call may take only some of the bytes
that it is offered, or none, or fail: `flushTo` offers it what is left until nothing is left or
nothing is taken. What is left then is lost.
-/

namespace Polarity

/-- Text that waits to be printed. -/
structure Buffer where
  text : String := ""
  deriving DecidableEq, Repr, Inhabited

namespace Buffer

/-- How many bytes of text a buffer can hold. -/
def capacity : Nat := 512

/-- The number of bytes held. -/
def size (b : Buffer) : Nat := b.text.utf8ByteSize

/-- Add a piece if all of it has room. The answer says whether it was taken. -/
def write (piece : String) (b : Buffer) : Bool × Buffer :=
  if b.size + piece.utf8ByteSize ≤ capacity then (true, ⟨b.text ++ piece⟩) else (false, b)

/-- Add pieces up to the first that is not taken. -/
def writeAll : List String → Buffer → Buffer
  | [], b => b
  | piece :: later, b =>
    match b.write piece with
    | (true, next) => next.writeAll later
    | (false, same) => same

/-- Hand out the text that is held. -/
def flush (b : Buffer) : String × Buffer := (b.text, {})

/-- The bytes that go out through a call that answers how many of the first bytes it has taken, or
with a number below zero if it fails. It is never offered the same bytes twice, so that a function
of the offer can stand for a call that answers differently each time. -/
def drain (taken : List UInt8 → Int) (bytes : List UInt8) : List UInt8 :=
  if bytes = [] ∨ taken bytes ≤ 0 then []
  else bytes.take (taken bytes).toNat ++ drain taken (bytes.drop (taken bytes).toNat)
termination_by bytes.length
decreasing_by
  have := List.length_pos_iff.2 (not_or.1 ‹_›).1
  rw [List.length_drop]
  omega

/-- Hand out the text that is held through such a call. -/
def flushTo (taken : List UInt8 → Int) (b : Buffer) : List UInt8 × Buffer :=
  (drain taken (Utf8.encode b.text), {})

/-- What is printed when pieces are put together in an empty buffer. -/
def print (pieces : List String) : String :=
  (writeAll pieces {}).flush.1

end Buffer

end Polarity
