import Polarity.Directory.Path
import Polarity.Literal.Basic

/-!
# Failures, and changes that can fail

An operation fails in one of two ways.

* An `Error` is the fault of the input: a file that is not there, a hint that does not fit. It is
  reported and the program goes on.
* A `Fault` is the fault of the caller: an operation was used outside its domain, or a number
  left its range.

**Changes.** A `Change σ α` is an operation on a state `σ`. When it fails the state stays as the
operation left it at that moment, so that "a failure leaves no trace" is a statement about the
operation and not about the way it is run.
-/

namespace Polarity

/-- Why a file could not be opened, read or written. -/
inductive IoFault where
  | notFound
  | notDirectory
  | isDirectory
  | nameTooLong
  | nulInName
  | notUtf8
  | other (text : String)
  deriving DecidableEq, Repr

/-- The text of an input or output fault. -/
def IoFault.text : IoFault → String
  | notFound => "No such file or directory (os error 2)"
  | notDirectory => "Not a directory (os error 20)"
  | isDirectory => "Is a directory (os error 21)"
  | nameTooLong => "File name too long (os error 36)"
  | nulInName => "file name contained an unexpected NUL byte"
  | notUtf8 => "stream did not contain valid UTF-8"
  | other text => text

/-- What is wrong with a hint, a hint file, or the number of variables asked for. -/
inductive Error where
  | allocation (requested : Nat)
  | tooManyVariables (requested : Nat)
  | fileOpen (path : Path) (cause : IoFault)
  | fileRead (path : Path) (cause : IoFault)
  | badToken (token : String) (index : Nat) (path : Path)
  | countMismatch (path : Path) (parsed expected : Nat)
  | hintLength (hint vars : Nat)
  | hintReapplied
  deriving DecidableEq, Repr

namespace Error

/-- The text of an error. -/
def text : Error → String
  | allocation requested => s!"failed to allocate phases for {requested} variables"
  | tooManyVariables requested =>
    s!"{requested} variables exceed the maximum of {Variable.limit}"
  | fileOpen path _ => s!"could not open init phase file '{path.text}'"
  | fileRead path _ => s!"could not read init phase file '{path.text}'"
  | badToken token index path =>
    s!"invalid token '{token}' at index {index} in '{path.text}' " ++
      "(use 1/0/d, +1/-1, true/false, ...)"
  | countMismatch path parsed expected =>
    s!"init-phase file '{path.text}' has {parsed} entries but solver has {expected} variables"
  | hintLength hint vars =>
    s!"initial phases cover {hint} variables but solver has {vars} variables"
  | hintReapplied => "initial phases can only be applied once, before solving starts"

/-- What lies behind an error, if it has a cause of its own. -/
def cause? : Error → Option IoFault
  | fileOpen _ cause => some cause
  | fileRead _ cause => some cause
  | _ => none

/-- The texts of an error and of its cause, the error first. -/
def chain (e : Error) : List String :=
  e.text :: (e.cause?.map IoFault.text).toList

end Error

/-- An operation used outside its domain. -/
inductive Fault where
  /-- Zero is the number of no literal. -/
  | zeroLiteral
  /-- The literals of the variable have no numbers. -/
  | variableTooLarge (index : Nat)
  /-- A literal of an assigned variable is assigned. -/
  | alreadyAssigned (lit : Literal)
  /-- There is no such entry in a table. -/
  | outOfRange
  /-- A number leaves the range of its type. -/
  | overflow
  /-- A table is larger than a block of memory can be. -/
  | capacity
  /-- A table is larger than any memory. -/
  | outOfMemory
  /-- An array is to grow to a size that is not greater. -/
  | arrayNotGrowing
  /-- An array is to shrink to a size that is not smaller. -/
  | arrayNotShrinking
  /-- The stored phases are to grow to a size that is not greater. -/
  | phasesNotGrowing
  /-- The stored phases are to shrink to a size that is not smaller. -/
  | phasesNotShrinking
  /-- Phases are saved from an assignment of another size. -/
  | sizesDiffer
  /-- A hint of another size is applied. -/
  | hintSizeDiffers
  /-- A formula of another size is searched. -/
  | solverNotSized
  /-- A controller is armed twice. -/
  | controllerActive
  /-- A search takes more rounds or passes than any search can need. -/
  | searchUnfinished
  deriving DecidableEq, Repr

/-- The text of a fault. -/
def Fault.text : Fault → String
  | zeroLiteral => "0 is not allowed for a literal"
  | variableTooLarge index => s!"Variable index {index} exceeds {Variable.max.index}"
  | alreadyAssigned lit => s!"{lit.text} is already assigned"
  | outOfRange => "index out of bounds"
  | overflow => "arithmetic overflow"
  | capacity => "capacity overflow"
  | outOfMemory => "memory exhausted"
  | arrayNotGrowing => "Growing to a smaller size"
  | arrayNotShrinking => "Shrinking to a larger size"
  | phasesNotGrowing => "Growing phases to a smaller size"
  | phasesNotShrinking => "Shrinking phases to a larger size"
  | sizesDiffer => "assertion failed"
  | hintSizeDiffers => "Initial phases of wrong length"
  | solverNotSized => "Solver is not sized"
  | controllerActive => "Arming an active controller"
  | searchUnfinished => "Search went past its bound"

/-- An operation failed. -/
inductive Failure where
  | error (e : Error)
  | fault (f : Fault)
  deriving DecidableEq, Repr

/-- An operation on a state that may fail, and that leaves a state in either case. -/
abbrev Change (σ α : Type) := EStateM Failure σ α

namespace Change

variable {σ τ α : Type}

/-- Fail with an error of the input. -/
def refuse (e : Error) : Change σ α := throw (.error e)

/-- Fail with a fault of the caller. -/
def abort (f : Fault) : Change σ α := throw (.fault f)

/-- Go on only if `p` holds. -/
def ensure (p : Prop) [Decidable p] (f : Fault) : Change σ Unit :=
  if p then pure () else abort f

/-- Read the state with a function that may fail. -/
def read (f : σ → Except Failure α) : Change σ α := fun s =>
  match f s with
  | .ok a => .ok a s
  | .error e => .error e s

/-- Carry out a change of a part of the state. The part is put back whether or not it fails. -/
def on (part : σ → τ) (put : σ → τ → σ) (c : Change τ α) : Change σ α := fun s =>
  match c (part s) with
  | .ok a t => .ok a (put s t)
  | .error e t => .error e (put s t)

end Change

/-- What a change ended with, and the state it left. -/
structure Ended (σ α : Type) where
  result : Except Failure α
  state : σ

/-- Carry out a change. -/
def Change.carry {σ α : Type} (c : Change σ α) (s : σ) : Ended σ α :=
  match c s with
  | .ok a t => ⟨.ok a, t⟩
  | .error e t => ⟨.error e, t⟩

end Polarity
