import Scriptlet.Program.Basic
import Scriptlet.Text.Layout

/-!
# Listings

A program as text: one instruction on each line, with a remark on what its operand points to, and a
heading where a function starts.
-/

namespace Scriptlet.Program

/-- What the operand of an instruction points to. -/
def remark? (p : Program) (i : Instruction) : Option String :=
  match i.op with
  | .loadConst => (p.constants[i.arg1]?).map Literal.shown
  | .loadVar => p.variableNames[i.arg1]?
  | .storeVar => p.variableNames[i.arg1]?
  | .call =>
    (p.constants[i.arg1]?).map fun value =>
      let callee := match value with
        | .str name => name
        | other => other.shown
      callee ++ "/" ++ toString i.arg2
  | _ => none

/-- The line of an instruction at an offset, without its end. -/
def line (p : Program) (offset : Nat) (i : Instruction) : String :=
  let operation := match i.op.operandCount with
    | 0 => i.op.name
    | 1 => Text.padRight 12 i.op.name ++ " " ++ toString i.arg1
    | _ => Text.padRight 12 i.op.name ++ " " ++ toString i.arg1 ++ " " ++ toString i.arg2
  let remark := match p.remark? i with
    | some text => "  ; " ++ text
    | none => ""
  Text.zeroPadded 4 offset ++ "  " ++ operation ++ remark

/-- The heading of the function that starts at an offset, if there is one. -/
def heading (p : Program) (offset : Nat) : String :=
  match p.functionAt? offset with
  | some (name, entry) => "; fn " ++ name ++ "(" ++ ", ".intercalate entry.params ++ ")\n"
  | none => ""

/-- The listing of a program. -/
def listing (p : Program) : String :=
  String.join (p.code.toList.zipIdx.map fun (i, offset) =>
    p.heading offset ++ p.line offset i ++ "\n")

end Scriptlet.Program
