import Polarity.Text.Utf8

/-!
# Command line arguments

Finding the options among the arguments of a program. Arguments are bytes, of which only the names
of options have to be text.

**Options** are declared as `Switch`es. A long name follows two dashes and a value follows it after
an equals sign or as the next argument. Short names follow one dash, several of them together if
they take no values; a value follows the last one at once, after an equals sign, or as the next
argument. A value that is an argument of its own does not look like an option.

**Other arguments** are positional. So is everything after two dashes that stand alone, and a dash
that stands alone.
-/

namespace Polarity

/-- An argument of a program. -/
abbrev Argument := List UInt8

/-- An option of a program: its long name, its short name if it has one, and whether it takes a
value. -/
structure Switch where
  name : String
  short : Option Char := none
  takesValue : Bool := true
  deriving DecidableEq, Repr

/-- An option or a positional argument, as it was found. -/
inductive Occurrence where
  | flag (name : String)
  | value (name : String) (v : Argument)
  | positional (v : Argument)
  deriving DecidableEq, Repr

/-- What an argument looks like. -/
inductive Argument.Shape where
  | separator
  | long (name : List UInt8) (attached : Option Argument)
  | short (names : List UInt8)
  | plain
  deriving DecidableEq, Repr

namespace Argument

/-- The byte that starts an option. -/
def dash : UInt8 := 0x2D

/-- The byte between an option and its value. -/
def equals : UInt8 := 0x3D

/-- What follows the first equals sign, if there is one. -/
def afterEquals (a : Argument) : Option Argument :=
  match a.dropWhile (· != equals) with
  | [] => none
  | _ :: v => some v

/-- What an argument looks like. -/
def shape : Argument → Shape
  | [] => .plain
  | [_] => .plain
  | a :: b :: rest =>
    if a ≠ dash then .plain
    else if b ≠ dash then .short (b :: rest)
    else if rest.isEmpty then .separator
    else .long (rest.takeWhile (· != equals)) (afterEquals rest)

end Argument

namespace Switch

/-- The option with a long name. -/
def ofName? (switches : List Switch) (name : List UInt8) : Option Switch :=
  switches.find? fun s => Utf8.encode s.name == name

/-- The option with a short name. -/
def ofShort? (switches : List Switch) (name : UInt8) : Option Switch :=
  switches.find? fun s => s.short.any fun c => c.toNat == name.toNat

/-- Read short names: what is found, and the option that needs the next argument as its value. -/
def readShort (switches : List Switch) : List UInt8 → Option (List Occurrence × Option String)
  | [] => some ([], none)
  | c :: rest =>
    match ofShort? switches c with
    | none => none
    | some s =>
      if s.takesValue then
        match rest with
        | [] => some ([], some s.name)
        | d :: v =>
          some ([.value s.name (if d = Argument.equals then v else rest)], none)
      else (readShort switches rest).map fun (found, pending) => (.flag s.name :: found, pending)

/-- Read a long name: what is found, and whether the option needs the next argument as its
value. -/
def readLong (s : Switch) : Option Argument → Option (List Occurrence × Option String)
  | none => if s.takesValue then some ([], some s.name) else some ([.flag s.name], none)
  | some v => if s.takesValue then some ([.value s.name v], none) else none

/-- Read arguments, the first of which is the value of the option `pending` if there is one. -/
def scan? (switches : List Switch) : Option String → List Argument → Option (List Occurrence)
  | none, [] => some []
  | some _, [] => none
  | some name, a :: later =>
    match a.shape with
    | .plain => (scan? switches none later).map (.value name a :: ·)
    | _ => none
  | none, a :: later =>
    match a.shape with
    | .plain => (scan? switches none later).map (.positional a :: ·)
    | .separator => some (later.map .positional)
    | .long name attached => do
      let s ← ofName? switches name
      let (found, pending) ← readLong s attached
      return found ++ (← scan? switches pending later)
    | .short names => do
      let (found, pending) ← readShort switches names
      return found ++ (← scan? switches pending later)

/-- The positional arguments among what was found. -/
def positionals (found : List Occurrence) : List Argument :=
  found.filterMap fun o => match o with
    | .positional v => some v
    | _ => none

/-- The value of an option that may be given once. -/
def value? (name : String) (found : List Occurrence) : Option (Option Argument) :=
  match found.filterMap fun o => match o with
      | .value n v => if n = name then some v else none
      | _ => none with
  | [] => some none
  | [v] => some (some v)
  | _ => none

/-- Whether an option without a value is given; it may be given once. -/
def flag? (name : String) (found : List Occurrence) : Option Bool :=
  match found.count (.flag name) with
  | 0 => some false
  | 1 => some true
  | _ => none

end Switch

end Polarity
