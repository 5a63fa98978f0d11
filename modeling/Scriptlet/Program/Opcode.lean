/-!
# Operation codes

The operations of the stack machine, with their names and the number of operands they use.
-/

namespace Scriptlet

/-- The operations of the stack machine. -/
inductive Opcode where
  | loadConst
  | loadVar
  | storeVar
  | add
  | sub
  | mul
  | div
  | jump
  | jumpIfFalse
  | call
  | ret
  | pop
  | nop
  | eq
  | neq
  | lt
  | lte
  | gt
  | gte
  | and
  | or
  | not
  deriving Repr, DecidableEq

namespace Opcode

/-- All operations, in the order of the machine's table. -/
def all : List Opcode :=
  [loadConst, loadVar, storeVar, add, sub, mul, div, jump, jumpIfFalse, call, ret, pop, nop, eq,
    neq, lt, lte, gt, gte, and, or, not]

/-- The name of an operation. -/
def name : Opcode → String
  | loadConst => "LOAD_CONST"
  | loadVar => "LOAD_VAR"
  | storeVar => "STORE_VAR"
  | add => "ADD"
  | sub => "SUB"
  | mul => "MUL"
  | div => "DIV"
  | jump => "JUMP"
  | jumpIfFalse => "JUMP_IF_FALSE"
  | call => "CALL"
  | ret => "RET"
  | pop => "POP"
  | nop => "NOP"
  | eq => "EQ"
  | neq => "NEQ"
  | lt => "LT"
  | lte => "LTE"
  | gt => "GT"
  | gte => "GTE"
  | and => "AND"
  | or => "OR"
  | not => "NOT"

/-- The operation of a given name. -/
def ofName? (s : String) : Option Opcode := all.find? fun op => op.name == s

/-- Whether the first operand is a place in the code. -/
def isJump : Opcode → Bool
  | jump | jumpIfFalse => true
  | _ => false

/-- How many operands the operation uses. -/
def operandCount : Opcode → Nat
  | call => 2
  | loadConst | loadVar | storeVar | jump | jumpIfFalse => 1
  | _ => 0

/-- Every operation is found by its name. -/
theorem ofName?_name (op : Opcode) : ofName? op.name = some op := by
  cases op <;> rfl

end Opcode

end Scriptlet
