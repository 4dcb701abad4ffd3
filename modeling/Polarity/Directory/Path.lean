import Polarity.Text.Utf8

/-!
# Paths

The name of a file as it is given on a command line or in a request: any bytes at all. A
diagnostic shows a path as text.
-/

namespace Polarity

/-- The name of a file, byte by byte. -/
structure Path where
  bytes : List UInt8
  deriving DecidableEq, Repr, Inhabited

namespace Path

/-- The path that a text spells. -/
def ofText (s : String) : Path := ⟨Utf8.encode s⟩

/-- The path as diagnostics show it. -/
def text (p : Path) : String := Utf8.lossy p.bytes

/-- The text that the path spells, if it is text at all. -/
def text? (p : Path) : Option String := Utf8.decode p.bytes

theorem text_ofText (s : String) : (ofText s).text = s := Utf8.lossy_encode s

end Path

end Polarity
