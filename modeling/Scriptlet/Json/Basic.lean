/-!
# JSON values

A program is stored as a JSON value, and the value as a text.  How a value becomes a text and a text
a value again is left open here: a `Json.Codec` is one way to do both.

A string is kept with its text, if it has one: escapes can name half of a surrogate pair, and then
it has none.  In the same way a number that is out of range has no value.
-/

namespace Scriptlet

/-- A number: a whole one, or one with a fraction or an exponent. -/
inductive Json.Number where
  | whole (n : Int)
  | float (x : Float)

/-- A JSON value. -/
inductive Json where
  | null
  | bool (b : Bool)
  | number (value : Option Scriptlet.Json.Number)
  | string (text : Option String)
  | array (items : List Json)
  | object (members : List (Option String × Json))

namespace Json

/-- A whole number fits into 64 bits, with a sign if it is negative. -/
def Number.Fits (n : Int) : Prop := Int64.minValue.toInt ≤ n ∧ n < UInt64.size

instance (n : Int) : Decidable (Number.Fits n) :=
  inferInstanceAs (Decidable (Int64.minValue.toInt ≤ n ∧ n < UInt64.size))

/-- A way to write values as texts, and to read texts that hold a value. -/
structure Codec where
  write : Json → String
  read? : String → Option Json

end Json

end Scriptlet
