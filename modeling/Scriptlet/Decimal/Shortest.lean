import Scriptlet.Decimal.Binary64

/-!
# The fewest digits that read back

A decimal is a whole coefficient times a power of ten.  Among the decimals that round to a given
floating point number, `shortest` takes one with the fewest digits, and of those the one nearest to
the number.
-/

namespace Scriptlet

/-- A whole coefficient times a power of ten. -/
structure Decimal where
  coefficient : Nat
  exponent : Int
  deriving Repr, DecidableEq, Inhabited

namespace Decimal

/-- Which of two neighbours at the same distance is taken: the larger one or the even one. -/
inductive Tie where
  | up
  | even
  deriving Repr, DecidableEq

/-- The numbers that round to `mantissa * 2 ^ exponent`, in quarters of the last bit: from `low` to
`high`, around `mid`, with the ends included when the mantissa is even. -/
structure Basin where
  low : Nat
  mid : Nat
  high : Nat
  closed : Bool
  deriving Repr, DecidableEq

/-- The numbers that round to a given one.  Below a power of two the numbers lie twice as dense, so
there the basin is narrower on the left. -/
def basin (mantissa : Nat) (exponent : Int) : Basin where
  low :=
    if mantissa = Binary64.fractionSize ∧ Binary64.leastExponent < exponent then 4 * mantissa - 1
    else 4 * mantissa - 2
  mid := 4 * mantissa
  high := 4 * mantissa + 2
  closed := mantissa % 2 = 0

/-- The multiple of `step` that lies in the basin stretched by `stretch`, if there is one; of two,
the nearer one. -/
def Basin.multiple? (b : Basin) (tie : Tie) (stretch step : Nat) : Option Nat :=
  let mid := b.mid * stretch
  let below := mid / step
  let above := below + 1
  let inside (n : Nat) : Bool :=
    if b.closed then b.low * stretch ≤ n * step && n * step ≤ b.high * stretch
    else b.low * stretch < n * step && n * step < b.high * stretch
  match inside below, inside above with
  | true, false => some below
  | false, true => some above
  | false, false => none
  | true, true =>
    let left := mid - below * step
    let right := above * step - mid
    if left < right then some below
    else if right < left then some above
    else match tie with
      | .up => some above
      | .even => if below % 2 = 0 then some below else some above

/-- The multiple of ten to the power `k` that rounds to `mantissa * 2 ^ exponent`, if there is
one. -/
def onGrid? (tie : Tie) (mantissa : Nat) (exponent k : Int) : Option Nat :=
  let quarter := exponent - 2
  (basin mantissa exponent).multiple? tie
    (Nat.pow 2 quarter.toNat * Nat.pow 10 (-k).toNat)
    (Nat.pow 2 (-quarter).toNat * Nat.pow 10 k.toNat)

/-- A power of ten above every number that rounds to `mantissa * 2 ^ exponent`. -/
def coarsest (mantissa : Nat) (exponent : Int) : Int :=
  ((mantissa.log2 : Int) + exponent + 1) * 30103 / 100000 + 2

/-- The decimal with the fewest digits that rounds to the positive number `mantissa * 2 ^ exponent`:
the grids of the powers of ten are tried from coarse to fine, and the first one with a point
wins. -/
def shortest (tie : Tie) (mantissa : Nat) (exponent : Int) : Decimal :=
  let top := coarsest mantissa exponent
  let found := (List.range 640).findSome? fun (i : Nat) =>
    (onGrid? tie mantissa exponent (top - i)).map fun n => (⟨n, top - i⟩ : Decimal)
  found.getD default

/-- The word, without sign, nearest to a decimal.  Exponents far outside the range are decided
without building the power of ten. -/
def nearestBits (d : Decimal) : Nat :=
  if d.coefficient = 0 then 0
  else if 310 < d.exponent then Binary64.infinityBits
  else if d.exponent + d.coefficient.log2 + 1 < -324 then 0
  else
    Binary64.nearestBits (d.coefficient * Nat.pow 10 d.exponent.toNat)
      (Nat.pow 10 (-d.exponent).toNat)

end Decimal

end Scriptlet
