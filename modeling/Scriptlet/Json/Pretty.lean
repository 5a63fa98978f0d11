import Scriptlet.Decimal.Style
import Scriptlet.Json.Basic
import Scriptlet.Text.Layout

/-!
# Writing JSON

A value is written over several lines, with two spaces for each level of nesting.  A floating point
number has the fewest digits that still tell it from all others.
-/

namespace Scriptlet.Json

/-- A character inside a written string: quotes, backslashes and controls are escaped, and all else
stands for itself. -/
def escapedChar (c : Char) : String :=
  if c = '"' then "\\\""
  else if c = '\\' then "\\\\"
  else if c = '\x08' then "\\b"
  else if c = '\x0c' then "\\f"
  else if c = '\n' then "\\n"
  else if c = '\r' then "\\r"
  else if c = '\t' then "\\t"
  else if c.toNat < 32 then
    let digits := Nat.toDigits 16 c.toNat
    "\\u" ++ String.ofList (List.replicate (4 - digits.length) '0' ++ digits)
  else c.toString

/-- A text as a JSON string. -/
def stringText (s : String) : String := "\"" ++ String.join (s.toList.map escapedChar) ++ "\""

/-- The text of a number; one that is not finite has no digits and is written as `null`. -/
def Number.text : Number → String
  | .whole n => toString n
  | .float x => (Decimal.Style.stored.finite? x).getD "null"

/-- Lines between two brackets, each at one level more than the brackets. -/
def bracketed (opening closing : String) (level : Nat) (lines : List String) : String :=
  if lines.isEmpty then opening ++ closing
  else
    let inner := Text.spaces (2 * (level + 1))
    opening ++ "\n" ++ ",\n".intercalate (lines.map (inner ++ ·)) ++ "\n"
      ++ Text.spaces (2 * level) ++ closing

mutual

/-- The text of a value at a level of nesting.  A string without text and a number without value are
written as `null`. -/
def pretty (level : Nat) : Json → String
  | null => "null"
  | bool b => if b then "true" else "false"
  | number value => (value.map Number.text).getD "null"
  | string text => (text.map stringText).getD "null"
  | array items => bracketed "[" "]" level (prettyItems (level + 1) items)
  | object members => bracketed "\x7b" "\x7d" level (prettyMembers (level + 1) members)

/-- The texts of the items of an array. -/
def prettyItems (level : Nat) : List Json → List String
  | [] => []
  | item :: rest => pretty level item :: prettyItems level rest

/-- The texts of the members of an object. -/
def prettyMembers (level : Nat) : List (Option String × Json) → List String
  | [] => []
  | (key, value) :: rest =>
    ((key.map stringText).getD "null" ++ ": " ++ pretty level value) :: prettyMembers level rest

end

end Scriptlet.Json
