import Polarity.Directory.Reader
import Polarity.Hint.Basic
import Polarity.Text.Layout

/-!
# Reading hints

A hint file is a list of words, one for each variable in order. Each kind of phase has several
words for it, and upper and lower case of ASCII letters are the same:

* positive: `+1`, `1`, `t`, `true`
* negative: `-1`, `0`, `f`, `false`
* unset: `d`, `x`, `none`, `skip`, `*`

**Which fault is reported.** The first word that stands for no phase wins over a wrong number of
words.
-/

namespace Polarity.Hint

/-- The words for each phase, in lower case. -/
def spellings : Phase → List String
  | .positive => ["+1", "1", "t", "true"]
  | .negative => ["-1", "0", "f", "false"]
  | .unset => ["d", "x", "none", "skip", "*"]

/-- A word stands for a phase. -/
def spells (word : List Char) (p : Phase) : Bool :=
  (spellings p).any fun s => s.toList == word.map Char.toLower

/-- The phase that a word stands for. -/
def phaseOf? (word : List Char) : Option Phase :=
  [Phase.positive, .negative, .unset].find? (spells word)

/-- Read the words from the one at place `index` on. -/
def readWords (path : Path) (index : Nat) : List (List Char) → Except Error (List Phase)
  | [] => .ok []
  | word :: later =>
    match phaseOf? word with
    | none => .error (.badToken (String.ofList word) index path)
    | some p => (readWords path (index + 1) later).map (p :: ·)

/-- Read a hint that has to cover `expected` variables. -/
def parse (text : String) (path : Path) (expected : Nat) : Except Error Hint := do
  let phases ← readWords path 0 (Text.words text.toList)
  if phases.length = expected then return { path, phases }
  else throw (.countMismatch path phases.length expected)

/-- Read a hint that covers as many variables as it has words. -/
def parseAll (text : String) (path : Path) : Except Error Hint :=
  parse text path (Text.words text.toList).length

/-- Read a hint file. The whole file has to be text before any of its words is looked at. -/
def load (read : Reader) (path : Path) (expected : Nat) : Except Error Hint :=
  match read.text path with
  | .error (.opening cause) => .error (.fileOpen path cause)
  | .error (.reading cause) => .error (.fileRead path cause)
  | .ok text => parse text path expected

end Polarity.Hint
