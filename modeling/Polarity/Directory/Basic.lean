import Polarity.Directory.Reader

/-!
# A directory of files

The files and folders below one directory, and the rules by which a path leads to one of them. The
directory is where relative paths start; what lies above it is unknown, and nothing is found there.

**Following a path.** A path is a sequence of names between slashes. An empty name and `.` stay in
the present folder, `..` goes to the one above, and any other name goes to what has this name.
Each name but the last must lead to a folder.

**Adding files and folders.** What is added by path brings along the folders on its way that are
not there yet, and keeps those that are.

**Order of checks.** A path with a zero byte is refused before it is looked at, then one that is
too long, then an empty one. Along the way, the first name that cannot be followed is the one
reported.
-/

namespace Polarity

/-- A name of a file or folder in its folder. -/
abbrev Name := List UInt8

/-- A file or a folder. -/
inductive Node where
  | file (bytes : List UInt8)
  | folder
  deriving DecidableEq, Repr

/-- The names on the way down to a file or folder. -/
abbrev Location := List Name

/-- Files and folders by location. -/
structure Directory where
  nodes : List (Location × Node) := []
  deriving DecidableEq, Repr, Inhabited

namespace Directory

/-- The byte between names. -/
def slash : UInt8 := 0x2F

/-- The longest name, in bytes. -/
def longestName : Nat := 255

/-- The least number of bytes that is too long for a path. -/
def pathLimit : Nat := 4096

/-- What is at a location. -/
def node? (d : Directory) : Location → Option Node
  | [] => some .folder
  | loc => d.nodes.lookup loc

/-- The bytes of the file at a location. -/
def file? (d : Directory) (loc : Location) : Option (List UInt8) :=
  match d.node? loc with
  | some (.file bytes) => some bytes
  | _ => none

/-- Put something at a location, in place of what was there. -/
def put (loc : Location) (n : Node) (d : Directory) : Directory :=
  ⟨(loc, n) :: d.nodes.filter (·.1 ≠ loc)⟩

/-- The location that a name leads to from another one, whether or not something is there. -/
def follow (loc : Location) (name : Name) : Location :=
  if name = [] ∨ name = [0x2E] then loc
  else if name = [0x2E, 0x2E] then loc.dropLast
  else loc ++ [name]

/-- Go down from a location name by name, and make a folder wherever there is nothing yet. -/
def makeFolders (d : Directory) (loc : Location) : List Name → Directory
  | [] => d
  | name :: rest =>
    let next := follow loc name
    makeFolders (if (d.node? next).isNone then d.put next .folder else d) next rest

/-- Go from one place to another. The place above the directory is `none`. -/
def enter (d : Directory) : Option Location → Name → Except IoFault (Option Location)
  | none, name =>
    if name = [] ∨ name = [0x2E] ∨ name = [0x2E, 0x2E] then .ok none
    else if longestName < name.length then .error .nameTooLong
    else .error .notFound
  | some loc, name =>
    if d.node? loc ≠ some .folder then .error .notDirectory
    else if name = [] ∨ name = [0x2E] then .ok (some loc)
    else if name = [0x2E, 0x2E] then .ok (if loc = [] then none else some loc.dropLast)
    else if longestName < name.length then .error .nameTooLong
    else if (d.node? (loc ++ [name])).isNone then .error .notFound
    else .ok (some (loc ++ [name]))

/-- The names of a path. -/
def names (p : Path) : List Name := p.bytes.splitOnP (· == slash)

/-- The directory with a folder at the end of a path, and with all the folders on the way. -/
def addFolder (d : Directory) (p : Path) : Directory := d.makeFolders [] (names p)

/-- The directory with a file at the end of a path, and with all the folders on the way. -/
def addFile (d : Directory) (p : Path) (bytes : List UInt8) : Directory :=
  (d.makeFolders [] (names p).dropLast).put ((names p).foldl follow []) (.file bytes)

/-- Where a path starts: above the directory if it begins with a slash. -/
def origin (p : Path) : Option Location :=
  if p.bytes.head? = some slash then none else some []

/-- What is wrong with a path whatever there is in the directory. -/
def check (p : Path) : Except IoFault Unit :=
  if 0 ∈ p.bytes then .error .nulInName
  else if pathLimit ≤ p.bytes.length then .error .nameTooLong
  else if p.bytes = [] then .error .notFound
  else .ok ()

/-- Read the file that a path leads to. A folder can be opened but not read. -/
def read (d : Directory) : Reader := fun p =>
  match (do check p; (names p).foldlM d.enter (origin p)) with
  | .error cause => .error (.opening cause)
  | .ok none => .error (.reading .isDirectory)
  | .ok (some loc) =>
    match d.node? loc with
    | some (.file bytes) => .ok bytes
    | _ => .error (.reading .isDirectory)

/-- The location for a file with this name in the place reached, if there can be one. A folder is
no place for a file, be it named by a path that ends in a slash or otherwise. -/
def target (d : Directory) (place : Option Location) (name : Name) : Except IoFault Location :=
  if name = [] ∨ name = [0x2E] ∨ name = [0x2E, 0x2E] then .error .isDirectory
  else if longestName < name.length then .error .nameTooLong
  else
    match place with
    | none => .error .notFound
    | some loc =>
      if d.node? (loc ++ [name]) = some .folder then .error .isDirectory else .ok (loc ++ [name])

/-- The names of a path without the empty ones at its end, if it ends in a slash. -/
def dropSlashes (l : List Name) : List Name :=
  if l.getLast? = some [] then (l.reverse.dropWhile (· == [])).reverse.dropLast ++ [[]] else l

/-- The location of the file that is written when a path is opened for writing. -/
def locate (d : Directory) (p : Path) : Except IoFault Location := do
  check p
  let names := dropSlashes (names p)
  let place ← names.dropLast.foldlM d.enter (origin p)
  match place with
  | some loc => if d.node? loc ≠ some .folder then throw .notDirectory
  | none => pure ()
  d.target place (names.getLast?.getD [])

/-- Write a file, in place of what it held before. -/
def write (d : Directory) (p : Path) (bytes : List UInt8) : Except IoFault Directory := do
  let loc ← d.locate p
  return d.put loc (.file bytes)

end Directory

end Polarity
