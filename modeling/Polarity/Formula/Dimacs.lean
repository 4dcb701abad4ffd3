import Polarity.Directory.Reader
import Polarity.Formula.Basic
import Polarity.Text.Layout
import Polarity.Text.Numeral

/-!
# Reading formulas

A DIMACS file is read line by line. Blanks around a line do not matter; empty lines and lines that
start with `c` are comments, and a line that starts with `%` ends the file.

**The header** is the line that starts with `p`: the words `p cnf`, the number of variables and the
number of clauses. It comes before the first clause and is not repeated.

**The clauses** are all other lines together, as one sequence of numbers in which zero ends a
clause. Lines do not matter here except in diagnostics.
-/

namespace Polarity.Formula

/-- What is wrong with a header. -/
inductive HeaderError where
  | badShape (line : String)
  | badVars (cause : NumeralError)
  | tooManyVars (vars : Nat)
  | badClauses (cause : NumeralError)
  deriving DecidableEq, Repr

/-- What is wrong with a DIMACS file. Lines are counted from one. -/
inductive DimacsError where
  | duplicateHeader (line : Nat)
  | header (line : Nat) (cause : HeaderError)
  | clauseBeforeHeader (line : Nat)
  | invalidLiteral (token : String) (line : Nat) (cause : NumeralError)
  | literalTooLarge (number : Int) (vars line : Nat)
  | missingHeader
  | openClause
  | clauseCount (declared found : Nat)
  deriving DecidableEq, Repr

/-- The texts of a header error, the outermost first. -/
def HeaderError.chain : HeaderError → List String
  | badShape line => [s!"Invalid header '{line}'"]
  | badVars cause => ["Invalid number of variables", cause.text]
  | tooManyVars vars => [s!"{vars} variables exceed the maximum of {Variable.limit}"]
  | badClauses cause => ["Invalid number of clauses", cause.text]

/-- The texts of an error, the outermost first. -/
def DimacsError.chain : DimacsError → List String
  | duplicateHeader line => [s!"Duplicate header at line {line}"]
  | header line cause => s!"line {line}" :: cause.chain
  | clauseBeforeHeader line => [s!"Clause before header at line {line}"]
  | invalidLiteral token line cause =>
    [s!"Invalid literal '{token}' at line {line}", cause.text]
  | literalTooLarge number vars line =>
    [s!"Literal {number} exceeds {vars} variables at line {line}"]
  | missingHeader => ["Missing 'p cnf' header"]
  | openClause => ["Last clause is not terminated by 0"]
  | clauseCount declared found => [s!"Header declares {declared} clauses but found {found}"]

/-- Numbers of variables and of clauses that a header declares. -/
structure Header where
  vars : Nat
  clauses : Nat
  deriving DecidableEq, Repr

/-- Read a header line. -/
def Header.parse (line : List Char) : Except HeaderError Header :=
  match Text.words line with
  | [['p'], ['c', 'n', 'f'], vars, clauses] => do
    let vars ← (Numeral.natural Numeral.word vars).mapError .badVars
    if Variable.limit < vars then
      throw (.tooManyVars vars)
    let clauses ← (Numeral.natural Numeral.word clauses).mapError .badClauses
    return { vars, clauses }
  | _ => .error (.badShape (String.ofList line))

/-- A file that is partly read: its header, the clauses that are ended, and the literals of the
one that is not. The clauses and the literals are the latest first. -/
structure Draft where
  header : Option Header := none
  clauses : List Clause := []
  pending : Clause := []

/-- Read one word of a clause line. -/
def Draft.readNumber (vars line : Nat) (d : Draft) (token : List Char) :
    Except DimacsError Draft := do
  let number ← (Numeral.signed Numeral.int32 token).mapError
    (.invalidLiteral (String.ofList token) line)
  if number = 0 then
    return { d with clauses := d.pending.reverse :: d.clauses, pending := [] }
  if vars < number.natAbs then
    throw (.literalTooLarge number vars line)
  return { d with pending := ⟨⟨number.natAbs - 1⟩, 0 < number⟩ :: d.pending }

/-- Read one line that is neither empty nor a comment. -/
def Draft.readLine (d : Draft) : Nat × List Char → Except DimacsError Draft
  | (n, line) =>
    if line.head? = some 'p' then
      if d.header.isSome then .error (.duplicateHeader n)
      else (Header.parse line).mapError (.header n) |>.map fun h => { d with header := some h }
    else
      match d.header with
      | none => .error (.clauseBeforeHeader n)
      | some h => (Text.words line).foldlM (readNumber h.vars n) d

/-- The lines that count, trimmed and numbered from one. -/
def statements (text : List Char) : List (Nat × List Char) :=
  let lines := (Text.numbered 1 (Text.lines text)).map fun (n, line) => (n, Text.trim line)
  (lines.filter fun (_, line) => !line.isEmpty && line.head? != some 'c').takeWhile
    fun (_, line) => line.head? != some '%'

/-- The formula of a file that is read to its end. -/
def Draft.finish (d : Draft) : Except DimacsError Formula :=
  match d.header with
  | none => .error .missingHeader
  | some h =>
    if d.pending ≠ [] then .error .openClause
    else if d.clauses.length ≠ h.clauses then .error (.clauseCount h.clauses d.clauses.length)
    else .ok { vars := h.vars, clauses := d.clauses.reverse }

/-- Read a DIMACS file. -/
def parse (text : String) : Except DimacsError Formula := do
  let d ← (statements text.toList).foldlM Draft.readLine {}
  d.finish

/-- Why a formula could not be taken from a file. -/
inductive LoadError where
  | reading (path : Path) (cause : IoFault)
  | parsing (path : Path) (cause : DimacsError)
  deriving DecidableEq, Repr

/-- The texts of a load error, the outermost first. -/
def LoadError.chain : LoadError → List String
  | reading path cause => [s!"Failed to read '{path.text}'", cause.text]
  | parsing path cause => s!"Failed to parse '{path.text}'" :: cause.chain

/-- Read a formula from a file. -/
def load (read : Reader) (path : Path) : Except LoadError Formula :=
  match read.text path with
  | .error failure => .error (.reading path failure.cause)
  | .ok text => (parse text).mapError (.parsing path)

end Polarity.Formula
