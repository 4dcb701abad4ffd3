import Polarity.Memory
import Polarity.Phase

/-!
# Arrays of phases

One phase for each variable, in an array that grows and shrinks at its end. New entries are
unset, and shrinking keeps the entries before the cut.

**Memory.** Growing can fail for want of memory; `reserve` fails in the same cases without growing,
so that several arrays can be grown together or not at all.
-/

namespace Polarity

/-- One phase for each variable. -/
structure PhaseArray where
  entries : Array Phase := #[]
  deriving DecidableEq, Repr, Inhabited

namespace PhaseArray

/-- The number of entries. -/
def size (a : PhaseArray) : Nat := a.entries.size

/-- There are no entries. -/
def isEmpty (a : PhaseArray) : Bool := a.size == 0

/-- The entries in the order of the variables. -/
def toList (a : PhaseArray) : List Phase := a.entries.toList

/-- The phase of a variable. -/
def get (a : PhaseArray) (v : Variable) : Except Failure Phase :=
  match a.entries[v.index]? with
  | some p => .ok p
  | none => .error (.fault .outOfRange)

/-- Write the phase of a variable. -/
def set (v : Variable) (p : Phase) : Change PhaseArray Unit := do
  Change.ensure (v.index < (← EStateM.get).size) .outOfRange
  modify fun a => ⟨a.entries.setIfInBounds v.index p⟩

/-- Make sure that there is memory for so many entries. -/
def reserve (size : Nat) : Change PhaseArray Unit := do
  if (← EStateM.get).size < size ∧ Memory.limit ≤ size then
    Change.refuse (.allocation size)

/-- Add unset entries up to a greater size. -/
def grow (size : Nat) : Change PhaseArray Unit := do
  Change.ensure ((← EStateM.get).size < size) .arrayNotGrowing
  reserve size
  modify fun a => ⟨a.entries ++ Array.replicate (size - a.size) .unset⟩

/-- Cut the array down to a smaller size. -/
def shrink (size : Nat) : Change PhaseArray Unit := do
  Change.ensure (size < (← EStateM.get).size) .arrayNotShrinking
  modify fun a => ⟨a.entries.extract 0 size⟩

/-- Turn every entry into its opposite. -/
def negateAll : Change PhaseArray Unit :=
  modify fun a => ⟨a.entries.map fun p => -p⟩

/-- Write a phase over each entry; where the new phase is unset the entry stays. -/
def overlay (phases : List Phase) : Change PhaseArray Unit :=
  modify fun a => ⟨Array.zipWith Phase.overlay a.entries phases.toArray⟩

end PhaseArray

end Polarity
