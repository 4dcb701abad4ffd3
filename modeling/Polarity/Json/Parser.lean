import Polarity.Double.Basic
import Polarity.Json.Basic
import Polarity.Text.Numeral

/-!
# Reading JSON

A strict reader: a text is one value of the format and nothing else. Each of its parts takes
characters from the front of a list and gives what is left.

**Limits.** Arrays and objects can be nested 127 deep. A number must fit a double: `fits` is the
rule, which looks only at the digits that a 64-bit word can take in.

**Texts.** A surrogate is written as a pair of escapes or not at all, and control characters are
written as escapes.
-/

namespace Polarity.Json

/-- How deep arrays and objects can be nested. -/
def depthLimit : Nat := 127

/-- A character that may stand between the parts of a JSON text. -/
def isSpace (c : Char) : Bool :=
  c == ' ' || c == '\t' || c == '\n' || c == '\r'

/-- Drop the space at the front. -/
def skipSpace (s : List Char) : List Char := s.dropWhile isSpace

/-! ## Numbers -/

/-- The digits of a number as far as a 64-bit word takes them in, and the power of ten they
count. -/
structure Significand where
  digits : Nat
  exponent : Int

/-- The word that a further digit makes of a word, if it fits. -/
def extend? (n : Nat) (c : Char) : Option Nat :=
  let next := 10 * n + (Numeral.digit? c).getD 0
  if next ≤ Numeral.word then some next else none

/-- Take in the digits before the point. From the first one on that does not fit, each counts as a
power of ten. -/
def Significand.whole (n : Nat) : List Char → Significand
  | [] => ⟨n, 0⟩
  | c :: later =>
    match extend? n c with
    | some next => whole next later
    | none => ⟨n, later.length + 1⟩

/-- Take in the digits after the point, up to the first one that does not fit. -/
def Significand.fraction (s : Significand) : List Char → Significand
  | [] => s
  | c :: later =>
    match extend? s.digits c with
    | some next => fraction ⟨next, s.exponent - 1⟩ later
    | none => s

/-- The number fits a double. Digits that are all zero do so with any exponent. -/
def Significand.fits (s : Significand) : Bool :=
  s.digits == 0 || s.exponent < 0 ||
    (s.exponent ≤ 308 &&
      ((Double.ofNat s.digits).mul (Double.ofNat (Nat.pow 10 s.exponent.toNat))).isFinite)

/-- Read the digits before the point: zero alone, or digits that do not start with zero. -/
def readWhole (s : List Char) : Option (List Char × List Char) :=
  match Numeral.readDigits s with
  | ([], _) => none
  | (['0'], rest) => some (['0'], rest)
  | ('0' :: _, _) => none
  | (digits, rest) => some (digits, rest)

/-- Read a point and digits, if a point comes next. -/
def readFraction : List Char → Option (List Char × List Char)
  | '.' :: s =>
    match Numeral.readDigits s with
    | ([], _) => none
    | (digits, rest) => some (digits, rest)
  | s => some ([], s)

/-- Read an exponent, if one comes next. -/
def readExponent (s : List Char) : Option (Option Int × List Char) :=
  if s.head? = some 'e' ∨ s.head? = some 'E' then
    let (negative, s) := match s.tail with
      | '-' :: s => (true, s)
      | '+' :: s => (false, s)
      | s => (false, s)
    match Numeral.readDigits s with
    | ([], _) => none
    | (digits, rest) =>
      let n : Int := Numeral.value digits
      some (some (if negative then -n else n), rest)
  else some (none, s)

/-- Read a number after its sign. -/
def readMagnitude (negative : Bool) (s : List Char) : Option (Json × List Char) := do
  let (whole, afterWhole) ← readWhole s
  let (fraction, afterFraction) ← readFraction afterWhole
  let (exponent, rest) ← readExponent afterFraction
  let value := Numeral.value whole
  if !negative && fraction.isEmpty && exponent.isNone && value ≤ Numeral.word then
    return (count value, rest)
  let significand := (Significand.whole 0 whole).fraction fraction
  let shifted := { significand with exponent := significand.exponent + exponent.getD 0 }
  if !shifted.fits then none
  let written := s.take (s.length - rest.length)
  return (number (String.ofList (if negative then '-' :: written else written)), rest)

/-- Read a number. -/
def readNumber : List Char → Option (Json × List Char)
  | '-' :: s => readMagnitude true s
  | s => readMagnitude false s

/-! ## Texts -/

/-- The value of a hexadecimal digit. -/
def hexDigit? (c : Char) : Option Nat :=
  if c.isDigit then some (c.toNat - '0'.toNat)
  else if 'a' ≤ c ∧ c ≤ 'f' then some (c.toNat - 'a'.toNat + 10)
  else if 'A' ≤ c ∧ c ≤ 'F' then some (c.toNat - 'A'.toNat + 10)
  else none

/-- Read four hexadecimal digits. -/
def readUnit : List Char → Option (Nat × List Char)
  | a :: b :: c :: d :: rest => do
    let a ← hexDigit? a
    let b ← hexDigit? b
    let c ← hexDigit? c
    let d ← hexDigit? d
    return (((a * 16 + b) * 16 + c) * 16 + d, rest)
  | _ => none

/-- The unit is the first of a pair of surrogates. -/
def isLeading (unit : Nat) : Bool := 0xD800 ≤ unit && unit ≤ 0xDBFF

/-- The unit is the second of a pair of surrogates. -/
def isTrailing (unit : Nat) : Bool := 0xDC00 ≤ unit && unit ≤ 0xDFFF

/-- Read the rest of an escape that started with `u`. -/
def readUnicode (s : List Char) : Option (Char × List Char) := do
  let (unit, rest) ← readUnit s
  if isTrailing unit then none
  else if isLeading unit then
    match rest with
    | '\\' :: 'u' :: s =>
      let (second, rest) ← readUnit s
      if isTrailing second then
        return (Char.ofNat (0x10000 + (unit - 0xD800) * 0x400 + (second - 0xDC00)), rest)
      else none
    | _ => none
  else return (Char.ofNat unit, rest)

/-- The character that a one-letter escape stands for. -/
def escaped? : Char → Option Char
  | '"' => some '"'
  | '\\' => some '\\'
  | '/' => some '/'
  | 'b' => some '\x08'
  | 'f' => some '\x0c'
  | 'n' => some '\n'
  | 'r' => some '\r'
  | 't' => some '\t'
  | _ => none

/-- Read one character of a text. -/
def readChar : List Char → Option (Char × List Char)
  | '\\' :: 'u' :: s => readUnicode s
  | '\\' :: c :: s => (escaped? c).map fun e => (e, s)
  | '\\' :: [] => none
  | c :: s => if c.toNat < 0x20 then none else some (c, s)
  | [] => none

/-- Read the characters of a text and the quote at its end, `bound` of them at most. -/
def readChars : Nat → List Char → Option (List Char × List Char)
  | _, '"' :: rest => some ([], rest)
  | 0, _ => none
  | bound + 1, s => do
    let (c, s) ← readChar s
    let (later, rest) ← readChars bound s
    return (c :: later, rest)

/-- Read a text after its first quote. -/
def readText (s : List Char) : Option (String × List Char) :=
  (readChars s.length s).map fun (chars, rest) => (String.ofList chars, rest)

/-! ## Arrays and objects -/

/-- Read members with commas between them up to a closing character, `bound` of them at most. -/
def readMembers {α : Type} (member : List Char → Option (α × List Char)) (close : Char) :
    Nat → List Char → Option (List α × List Char)
  | 0, _ => none
  | bound + 1, s => do
    let (a, s) ← member s
    match skipSpace s with
    | ',' :: s =>
      let (later, rest) ← readMembers member close bound s
      return (a :: later, rest)
    | c :: rest => if c = close then some ([a], rest) else none
    | [] => none

/-- Read members up to a closing character, or none at all. -/
def readList {α : Type} (member : List Char → Option (α × List Char)) (close : Char)
    (s : List Char) : Option (List α × List Char) :=
  match skipSpace s with
  | c :: rest => if c = close then some ([], rest) else readMembers member close s.length s
  | [] => none

/-- Read a field of an object: its name, a colon, and its value. -/
def readField (value : List Char → Option (Json × List Char)) (s : List Char) :
    Option ((String × Json) × List Char) :=
  match skipSpace s with
  | '"' :: s => do
    let (name, s) ← readText s
    match skipSpace s with
    | ':' :: s =>
      let (v, rest) ← value s
      return ((name, v), rest)
    | _ => none
  | _ => none

/-- Read a word. -/
def readWord (word : String) (v : Json) (s : List Char) : Option (Json × List Char) :=
  if word.toList.isPrefixOf s then some (v, s.drop word.length) else none

/-- Read a value that is nested `depth` deep at most. -/
def readValue : Nat → List Char → Option (Json × List Char)
  | depth, s =>
    let s := skipSpace s
    match s.head? with
    | some 'n' => readWord "null" null s
    | some 't' => readWord "true" (bool true) s
    | some 'f' => readWord "false" (bool false) s
    | some '"' => (readText s.tail).map fun (t, rest) => (text t, rest)
    | some '[' =>
      match depth with
      | 0 => none
      | inner + 1 =>
        (readList (readValue inner) ']' s.tail).map fun (items, rest) => (array items, rest)
    | some '\x7b' =>
      match depth with
      | 0 => none
      | inner + 1 =>
        (readList (readField (readValue inner)) '\x7d' s.tail).map
          fun (fields, rest) => (object fields, rest)
    | _ => readNumber s

/-- Read a JSON text: one value, with space around it. -/
def parse? (s : String) : Option Json :=
  match readValue depthLimit s.toList with
  | some (v, rest) => if (skipSpace rest).isEmpty then some v else none
  | none => none

end Polarity.Json
