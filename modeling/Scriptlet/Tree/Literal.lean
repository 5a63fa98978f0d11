import Scriptlet.Decimal.Numeral
import Scriptlet.Decimal.Style
import Scriptlet.Text.Quoted

/-!
# Literals

The values that can be written down in a program.  The same values fill the constant pool of a
compiled program.
-/

namespace Scriptlet

/-- A value that can be written down. -/
inductive Literal where
  | int (n : Int64)
  | float (x : Float)
  | str (s : String)
  | bool (b : Bool)
  deriving DecidableEq

namespace Literal

/-- A literal as listings show it, with texts in quotes. -/
def shown : Literal → String
  | int n => toString n.toInt
  | float x => Decimal.readable x
  | str s => Text.quoted s
  | bool b => if b then "true" else "false"

/-- Whether two literals are of one kind and equal as values: the two zeros of floating point are
equal, and no number is not equal to itself. -/
def agrees : Literal → Literal → Bool
  | int a, int b => a == b
  | float a, float b => a == b
  | str a, str b => a == b
  | bool a, bool b => a == b
  | _, _ => false

/-- The literal that a number token stands for: an integer if it has no point and fits, and
otherwise a floating point number. -/
def ofNumber? (text : String) : Option Literal :=
  let whole := if text.toList.contains '.' then none else Numeral.readInt64? text
  match whole with
  | some n => some (int n)
  | none => (Numeral.readFloat? text).map float

end Literal

end Scriptlet
