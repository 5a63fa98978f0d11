import Scriptlet.Decimal.Shortest

/-!
# Writing floating point numbers

A `Style` holds the decisions of one way to write numbers: up to which size a number is written in
full, the sign of its exponent, and which of two equally near decimals is taken.  Two styles are in
use, one for people and one for stored programs.
-/

namespace Scriptlet.Decimal

/-- The decisions of one way to write numbers. -/
structure Style where
  /-- The least power of ten of the leading digit that is written in full. -/
  leastPlain : Int
  /-- The least power of ten of the leading digit that is too large to be written in full. -/
  leastLarge : Int
  /-- What stands before an exponent that is not negative. -/
  plus : String
  /-- Which of two equally near decimals is taken. -/
  tie : Tie

/-- Numbers as people read them: in full from 0.0001 up to below 10^16. -/
def Style.reading : Style := ⟨-4, 16, "", .up⟩

/-- Numbers as programs are stored: in full from 0.00001 up to below 10^16, with a sign before every
exponent. -/
def Style.stored : Style := ⟨-5, 16, "+", .even⟩

/-- Digits with the decimal point in place and at least one digit on each side of it. -/
def plainText (digits : List Char) (exponent : Int) : String :=
  if 0 ≤ exponent then
    String.ofList (digits ++ List.replicate exponent.toNat '0' ++ ['.', '0'])
  else
    let places := (-exponent).toNat
    let filled := List.replicate (places + 1 - digits.length) '0' ++ digits
    let point := filled.length - places
    String.ofList (filled.take point ++ ['.'] ++ filled.drop point)

/-- Digits with the point after the first one, and the power of ten. -/
def scientificText (plus : String) (digits : List Char) (exponent : Int) : String :=
  let power : Int := exponent + digits.length - 1
  let point := if digits.length = 1 then [] else ['.']
  String.ofList (digits.take 1 ++ point ++ digits.drop 1) ++ "e"
    ++ (if power < 0 then "-" else plus) ++ toString power.natAbs

/-- A decimal in a given style. -/
def Style.write (style : Style) (d : Decimal) : String :=
  let digits := Nat.toDigits 10 d.coefficient
  let leading : Int := d.exponent + digits.length - 1
  if style.leastPlain ≤ leading ∧ leading < style.leastLarge then plainText digits d.exponent
  else scientificText style.plus digits d.exponent

/-- A finite number in a given style; what is not finite has no digits. -/
def Style.finite? (style : Style) (x : Float) : Option String :=
  match Binary64.ofFloat x with
  | .nan => none
  | .infinite _ => none
  | .finite negative mantissa exponent =>
    let magnitude :=
      if mantissa = 0 then "0.0" else style.write (shortest style.tie mantissa exponent)
    some ((if negative then "-" else "") ++ magnitude)

/-- Any floating point value as people read it. -/
def readable (x : Float) : String :=
  match Binary64.ofFloat x with
  | .nan => "NaN"
  | .infinite negative => if negative then "-inf" else "inf"
  | .finite .. => (Style.reading.finite? x).getD ""

end Scriptlet.Decimal
