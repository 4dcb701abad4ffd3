import Polarity.Failure

/-!
# Reading files

A `Reader` answers for each path with the bytes of the file, or with the step at which reading it
fails: a file can be refused when it is opened or when it is read. That a file is not text is found
when it is read.
-/

namespace Polarity

/-- At which step a file could not be read, and why. -/
inductive ReadFailure where
  | opening (cause : IoFault)
  | reading (cause : IoFault)
  deriving DecidableEq, Repr

/-- Why a file could not be read, whatever the step. -/
def ReadFailure.cause : ReadFailure → IoFault
  | opening cause => cause
  | reading cause => cause

/-- What each path gives when it is read. -/
abbrev Reader := Path → Except ReadFailure (List UInt8)

/-- Read a file that has to be text. -/
def Reader.text (read : Reader) (path : Path) : Except ReadFailure String := do
  let bytes ← read path
  match Utf8.decode bytes with
  | some s => return s
  | none => throw (.reading .notUtf8)

end Polarity
