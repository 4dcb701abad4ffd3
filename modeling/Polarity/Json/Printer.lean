import Polarity.Json.Basic

/-!
# Writing JSON

The text of a value over several lines: each member of an array or object stands on a line of its
own, indented by two spaces more than the brackets around it. Nothing follows the last bracket.

**Texts** are written as they are, but for quotes, backslashes and control characters, which are
written as escapes.
-/

namespace Polarity.Json

/-- A hexadecimal digit. -/
def hexDigit (n : Nat) : Char :=
  if n < 10 then Char.ofNat ('0'.toNat + n) else Char.ofNat ('a'.toNat + (n - 10))

/-- One character as it is written in a text. -/
def escape (c : Char) : List Char :=
  if c = '"' then ['\\', '"']
  else if c = '\\' then ['\\', '\\']
  else if c = '\x08' then ['\\', 'b']
  else if c = '\x0c' then ['\\', 'f']
  else if c = '\n' then ['\\', 'n']
  else if c = '\r' then ['\\', 'r']
  else if c = '\t' then ['\\', 't']
  else if c.toNat < 0x20 then
    ['\\', 'u', '0', '0', hexDigit (c.toNat / 16), hexDigit (c.toNat % 16)]
  else [c]

/-- A text between its quotes. -/
def quote (s : String) : String :=
  "\"" ++ String.ofList (s.toList.flatMap escape) ++ "\""

/-- A new line with its indentation. -/
def newline (indent : Nat) : String := "\n".pushn ' ' (2 * indent)

/-- Members between brackets. -/
def bracket (first last : String) (indent : Nat) (members : List String) : String :=
  if members.isEmpty then first ++ last
  else
    first ++ newline (indent + 1) ++ ("," ++ newline (indent + 1)).intercalate members ++
      newline indent ++ last

mutual

/-- The text of a value in a line that is indented so far. -/
def pretty (indent : Nat) : Json → String
  | null => "null"
  | bool true => "true"
  | bool false => "false"
  | count n => toString n
  | number written => written
  | text s => quote s
  | array items => bracket "[" "]" indent (prettyItems (indent + 1) items)
  | object fields => bracket "\x7b" "\x7d" indent (prettyFields (indent + 1) fields)

/-- The texts of the items of an array. -/
def prettyItems (indent : Nat) : List Json → List String
  | [] => []
  | item :: later => pretty indent item :: prettyItems indent later

/-- The texts of the fields of an object. -/
def prettyFields (indent : Nat) : List (String × Json) → List String
  | [] => []
  | (name, value) :: later =>
    (quote name ++ ": " ++ pretty indent value) :: prettyFields indent later

end

end Polarity.Json
