import Scriptlet.Machine.Fault
import Scriptlet.Tree.Literal

/-!
# Values at run time

Values carry their type with them.  Integers have 64 bits and never wrap; an operation on an integer
and a floating point number is carried out on floating point numbers, and so is every division.
-/

namespace Scriptlet

/-- A value on the stack or in a variable. -/
inductive Value where
  | null
  | bool (b : Bool)
  | int (n : Int64)
  | float (x : Float)
  | str (s : String)
  deriving DecidableEq

namespace Value

/-- The value of a literal. -/
def ofLiteral : Literal → Value
  | .int n => int n
  | .float x => float x
  | .str s => str s
  | .bool b => bool b

/-- The name of a value's type. -/
def typeName : Value → String
  | null => "null"
  | bool _ => "bool"
  | int _ => "int"
  | float _ => "float"
  | str _ => "string"

/-- Whether a value counts as true: everything does but null, false, the zeros and the empty
text. -/
def isTruthy : Value → Bool
  | null => false
  | bool b => b
  | int n => n != 0
  | float x => x != 0
  | str s => s != ""

/-- The value as a program prints it. -/
def shown : Value → String
  | null => "null"
  | bool b => if b then "true" else "false"
  | int n => toString n.toInt
  | float x => Decimal.readable x
  | str s => s

/-- The floating point number nearest to an integer. -/
def nearestFloat (n : Int64) : Float :=
  let magnitude := n.toInt.natAbs.toUInt64.toFloat
  if n.toInt < 0 then -magnitude else magnitude

/-- A number as a floating point number. -/
def toFloat? : Value → Option Float
  | int n => some (nearestFloat n)
  | float x => some x
  | _ => none

/-- The fault of an operation on values of types it is not made for. -/
def mismatch (op : String) (a b : Value) : Fault := .typeMismatch op a.typeName b.typeName

/-- An integer, or the fault that it has more than 64 bits. -/
def ofInt (op : String) (n : Int) : Except Fault Value :=
  match Numeral.toInt64? n with
  | some n => .ok (int n)
  | none => .error (.integerOverflow op)

/-- An operation on two numbers as floating point numbers. -/
def onFloats (op : String) (f : Float → Float → Float) (a b : Value) : Except Fault Value :=
  match a.toFloat?, b.toFloat? with
  | some x, some y => .ok (float (f x y))
  | _, _ => .error (mismatch op a b)

/-- The sum of two numbers, or two texts joined. -/
def add : Value → Value → Except Fault Value
  | int a, int b => ofInt "+" (a.toInt + b.toInt)
  | str a, str b => .ok (str (a ++ b))
  | a, b => onFloats "+" (· + ·) a b

/-- The difference of two numbers. -/
def sub : Value → Value → Except Fault Value
  | int a, int b => ofInt "-" (a.toInt - b.toInt)
  | a, b => onFloats "-" (· - ·) a b

/-- The product of two numbers. -/
def mul : Value → Value → Except Fault Value
  | int a, int b => ofInt "*" (a.toInt * b.toInt)
  | a, b => onFloats "*" (· * ·) a b

/-- The quotient of two numbers, as a floating point number. -/
def div (a b : Value) : Except Fault Value :=
  match a.toFloat?, b.toFloat? with
  | some x, some y => if y == 0 then .error .divisionByZero else .ok (float (x / y))
  | _, _ => .error (mismatch "/" a b)

/-- Whether two values are equal; numbers are compared as floating point numbers, and other values
of different types differ. -/
def equals (a b : Value) : Bool :=
  match a.toFloat?, b.toFloat? with
  | some x, some y => x == y
  | _, _ =>
    match a, b with
    | null, null => true
    | bool x, bool y => x == y
    | str x, str y => x == y
    | _, _ => false

/-- The order of two floating point numbers, if they have one. -/
def orderFloats? (x y : Float) : Option Ordering :=
  if x < y then some .lt
  else if x == y then some .eq
  else if y < x then some .gt
  else none

/-- The order of two values for a comparison: integers by size, texts by code points, and other
numbers as floating point numbers. -/
def compare (op : String) : Value → Value → Except Fault Ordering
  | int a, int b => .ok (Ord.compare a.toInt b.toInt)
  | str a, str b => .ok (Ord.compare a b)
  | a, b =>
    match a.toFloat?, b.toFloat? with
    | some x, some y =>
      match orderFloats? x y with
      | some order => .ok order
      | none => .error (mismatch op a b)
    | _, _ => .error (mismatch op a b)

end Value

end Scriptlet
