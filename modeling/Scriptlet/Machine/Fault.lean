/-!
# Faults of a running program

A fault is a cause; it is located by the offset and the operation of the instruction that failed.
-/

namespace Scriptlet

/-- Why an instruction fails. -/
inductive Fault where
  | stackUnderflow
  | typeMismatch (op left right : String)
  | integerOverflow (op : String)
  | divisionByZero
  | unknownFunction (name : String)
  | notCallable (shown : String)
  | badConstant (index size : Nat)
  | badVariable (index size : Nat)
  | invalidJumpTarget (target size : Nat)
  | builtin (name message : String)
  | stepLimitExceeded (limit : Nat)
  deriving Repr, DecidableEq

/-- The wording of a fault. -/
def Fault.message : Fault → String
  | stackUnderflow => "stack underflow"
  | typeMismatch op left right =>
    "unsupported operand types for " ++ op ++ ": " ++ left ++ " and " ++ right
  | integerOverflow op => "integer overflow in " ++ op
  | divisionByZero => "division by zero"
  | unknownFunction name => "unknown function \x27" ++ name ++ "\x27"
  | notCallable shown => "function name operand is not a string: " ++ shown
  | badConstant index size =>
    "constant index " ++ toString index ++ " out of range (" ++ toString size ++ " constants)"
  | badVariable index size =>
    "variable slot " ++ toString index ++ " out of range (" ++ toString size ++ " variables)"
  | invalidJumpTarget target size =>
    "jump target " ++ toString target ++ " out of range (" ++ toString size ++ " instructions)"
  | builtin name message => "builtin \x27" ++ name ++ "\x27 failed: " ++ message
  | stepLimitExceeded limit =>
    "step limit of " ++ toString limit ++ " instructions exceeded"

/-- The instruction at which a fault arose: its offset and the name of its operation. -/
structure FaultSite where
  ip : Nat
  op : String
  deriving Repr, DecidableEq

/-- A fault with the instruction at which it arose, once that is known. -/
structure RuntimeFault where
  fault : Fault
  site : Option FaultSite := none
  deriving Repr, DecidableEq

namespace RuntimeFault

/-- Locate a fault; one that is located already keeps its place. -/
def locate (f : RuntimeFault) (ip : Nat) (op : String) : RuntimeFault :=
  match f.site with
  | some _ => f
  | none => { f with site := some ⟨ip, op⟩ }

/-- A fault without a place gets the one at which it is located. -/
@[simp] theorem locate_of_none (fault : Fault) (ip : Nat) (op : String) :
    locate ⟨fault, none⟩ ip op = ⟨fault, some ⟨ip, op⟩⟩ := rfl

/-- The wording of a fault with its place. -/
def message (f : RuntimeFault) : String :=
  match f.site with
  | none => f.fault.message
  | some site =>
    "VM runtime error at ip=" ++ toString site.ip ++ " op=" ++ site.op ++ ": " ++ f.fault.message

end RuntimeFault

end Scriptlet
