/-!
# Binary floating point words

A 64-bit floating point word stands for no number, an infinity, or a sign with a whole mantissa
times a power of two.  The module takes a word apart and builds the word nearest to a fraction.
-/

namespace Scriptlet

/-- What a 64-bit floating point word stands for. -/
inductive Binary64 where
  | nan
  | infinite (negative : Bool)
  | finite (negative : Bool) (mantissa : Nat) (exponent : Int)
  deriving Repr, DecidableEq

namespace Binary64

/-- The weight of the lowest bit of the exponent field: mantissas have this many values below the
leading bit. -/
def fractionSize : Nat := Nat.pow 2 52

/-- The exponent of the finest numbers. -/
def leastExponent : Int := -1074

/-- The word of positive infinity, which is also the first word past the finite ones. -/
def infinityBits : Nat := 2047 * fractionSize

/-- The sign bit. -/
def signBit : Nat := Nat.pow 2 63

/-- Take a word apart.  The exponent field zero marks the finest numbers, which have no leading bit,
and the field of all ones marks what is no finite number. -/
def ofBits (bits : Nat) : Binary64 :=
  let negative := signBit ≤ bits
  let field := bits / fractionSize % 2048
  let fraction := bits % fractionSize
  if field = 2047 then (if fraction = 0 then infinite negative else nan)
  else if field = 0 then finite negative fraction leastExponent
  else finite negative (fractionSize + fraction) (field - 1 + leastExponent)

/-- What a floating point value stands for. -/
def ofFloat (x : Float) : Binary64 := ofBits x.toBits.toNat

/-- Divide and round to the nearest whole number; a half goes to the even neighbour. -/
def roundHalfEven (num den : Nat) : Nat :=
  let quotient := num / den
  let rest := num % den
  if 2 * rest < den then quotient
  else if den < 2 * rest then quotient + 1
  else if quotient % 2 = 0 then quotient
  else quotient + 1

/-- The fraction `num / den` divided by two to the power `q`, as a numerator and a denominator. -/
def scaleDown (num den : Nat) (q : Int) : Nat × Nat :=
  (num * Nat.pow 2 (-q).toNat, den * Nat.pow 2 q.toNat)

/-- The exponent at which `num / den` has a 53-bit mantissa, or the least exponent if that is
larger. -/
def exponentFor (num den : Nat) : Int :=
  let guess := max ((num.log2 : Int) - den.log2 - 53) leastExponent
  let scaled := scaleDown num den guess
  if 2 * fractionSize ≤ scaled.1 / scaled.2 then guess + 1 else guess

/-- The word, without sign, nearest to the fraction `num / den`; a tie goes to the even mantissa,
and what is too large becomes infinite. -/
def nearestBits (num den : Nat) : Nat :=
  if num = 0 then 0
  else
    let q := exponentFor num den
    let scaled := scaleDown num den q
    min ((q - leastExponent).toNat * fractionSize + roundHalfEven scaled.1 scaled.2) infinityBits

/-- The value with a given sign and a given word without sign. -/
def toFloat (negative : Bool) (bits : Nat) : Float :=
  Float.ofBits (if negative then signBit + bits else bits).toUInt64

end Binary64

end Scriptlet
