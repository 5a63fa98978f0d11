import Scriptlet.Decimal.Shortest

/-!
# Reading numbers

Numerals are read digit by digit and rounded once, so the value is the one nearest to what is
written.  Whole numbers must fit into 64 bits with a sign.
-/

namespace Scriptlet

/-- A written number: its sign, the digits before and after the point, and its power of ten. -/
structure Numeral where
  negative : Bool
  whole : List Char
  fraction : List Char
  exponent : Int
  deriving Repr, DecidableEq

namespace Numeral

/-- The value of a list of digits. -/
def ofDigits (digits : List Char) : Nat :=
  digits.foldl (fun n c => 10 * n + (c.toNat - '0'.toNat)) 0

/-- The leading digits of a text and what follows them. -/
def splitDigits (cs : List Char) : List Char × List Char :=
  (cs.takeWhile Char.isDigit, cs.dropWhile Char.isDigit)

/-- An optional sign, and what follows it. -/
def splitSign : List Char → Bool × List Char
  | '-' :: rest => (true, rest)
  | '+' :: rest => (false, rest)
  | cs => (false, cs)

/-- The decimal that is written, without its sign. -/
def magnitude (n : Numeral) : Decimal :=
  ⟨ofDigits (n.whole ++ n.fraction), n.exponent - n.fraction.length⟩

/-- The word, without sign, nearest to what is written. -/
def bits (n : Numeral) : Nat := n.magnitude.nearestBits

/-- The floating point value nearest to what is written. -/
def toFloat (n : Numeral) : Float := Binary64.toFloat n.negative n.bits

/-- The exponent part of a numeral, which fills the rest of the text: nothing, or a letter `e`, an
optional sign and at least one digit. -/
def readExponent? : List Char → Option Int
  | [] => some 0
  | c :: rest =>
    if c = 'e' ∨ c = 'E' then
      let (negative, rest) := splitSign rest
      let (digits, rest) := splitDigits rest
      if digits.isEmpty ∨ ¬ rest.isEmpty then none
      else some (if negative then -(ofDigits digits : Int) else ofDigits digits)
    else none

/-- A numeral without its sign: digits with an optional point among them, at least one digit in all,
and an optional exponent. -/
def readUnsigned? (negative : Bool) (cs : List Char) : Option Numeral :=
  let (whole, rest) := splitDigits cs
  let (fraction, rest) := match rest with
    | '.' :: rest => splitDigits rest
    | rest => ([], rest)
  if whole.isEmpty ∧ fraction.isEmpty then none
  else (readExponent? rest).map fun exponent => ⟨negative, whole, fraction, exponent⟩

/-- A floating point number: an optional sign before a numeral, or before one of the words for
infinity and for no number, in any case of letters. -/
def readFloat? (text : String) : Option Float :=
  let (negative, cs) := splitSign text.toList
  let word := String.ofList (cs.map Char.toLower)
  if word = "inf" ∨ word = "infinity" then some (Binary64.toFloat negative Binary64.infinityBits)
  else if word = "nan" then some (Float.ofBits 0x7ff8000000000000)
  else (readUnsigned? negative cs).map toFloat

/-- The number as a 64-bit word with sign, if it fits. -/
def toInt64? (n : Int) : Option Int64 :=
  if Int64.minValue.toInt ≤ n ∧ n ≤ Int64.maxValue.toInt then some (Int64.ofInt n) else none

/-- A whole number: an optional sign and at least one digit, within 64 bits. -/
def readInt64? (text : String) : Option Int64 :=
  let (negative, cs) := splitSign text.toList
  if cs.isEmpty ∨ ¬ cs.all Char.isDigit then none
  else toInt64? (if negative then -(ofDigits cs : Int) else ofDigits cs)

end Numeral

end Scriptlet
