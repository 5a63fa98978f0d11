import Scriptlet.Json.Read
import Scriptlet.Program.Basic

/-!
# Stored programs

A program is stored as a JSON object with its code, its pools, the offsets of its functions and the
names of their parameters.  Loading checks that every operand points into its pool, so that a
program that loads can be run.  The codec that writes and reads the text of the object is a
parameter.
-/

namespace Scriptlet

/-! ## Writing -/

/-- A literal as a JSON value. -/
def Literal.toJson : Literal → Json
  | .int n => .number (some (.whole n.toInt))
  | .float x => .number (some (.float x))
  | .str s => .string (some s)
  | .bool b => .bool b

/-- A whole number as a JSON value. -/
def Json.ofNat (n : Nat) : Json := .number (some (.whole n))

/-- An object with the given members. -/
def Json.ofMembers (members : List (String × Json)) : Json :=
  .object (members.map fun m => (some m.1, m.2))

/-- An instruction as a JSON value. -/
def Instruction.toJson (i : Instruction) : Json :=
  .ofMembers [("op", .string (some i.op.name)), ("arg1", .ofNat i.arg1), ("arg2", .ofNat i.arg2)]

namespace Program

/-- A program as a JSON value. -/
def toJson (p : Program) : Json :=
  .ofMembers [
    ("code", .array (p.code.toList.map Instruction.toJson)),
    ("constants", .array (p.constants.toList.map Literal.toJson)),
    ("variables", .array (p.variableNames.toList.map fun name => .string (some name))),
    ("functions", .ofMembers (p.functions.entries.map fun (name, f) => (name, .ofNat f.offset))),
    ("params", .ofMembers (p.functions.entries.map fun (name, f) =>
      (name, .array (f.params.map fun param => .string (some param)))))]

/-- The text of a stored program. -/
def store (p : Program) (codec : Json.Codec := .plain) : String := codec.write p.toJson

end Program

/-! ## Reading -/

/-- Why a text is no stored program. -/
inductive LoadFault where
  /-- The text is no JSON value of the right shape. -/
  | malformed
  | unknownOpcode (name : String) (index : Nat)
  | badFunctionOffset (name : String) (offset size : Nat)
  | operandOutOfRange (index : Nat) (op : Opcode) (operand limit : Nat)
  deriving Repr, DecidableEq

/-- The wording of a fault. -/
def LoadFault.message : LoadFault → String
  | malformed => "malformed program JSON"
  | unknownOpcode name index =>
    "unknown opcode \x27" ++ name ++ "\x27 at instruction " ++ toString index
  | badFunctionOffset name offset size =>
    "function \x27" ++ name ++ "\x27 starts at " ++ toString offset
      ++ ", past the end of the code (" ++ toString size ++ " instructions)"
  | operandOutOfRange index op operand limit =>
    "instruction " ++ toString index ++ " (" ++ op.name ++ "): operand " ++ toString operand
      ++ " out of range (limit " ++ toString limit ++ ")"

namespace Json

/-- The text of a string. -/
def text? : Json → Option String
  | string text => text
  | _ => none

/-- The items of an array. -/
def items : Json → Option (List Json)
  | array items => some items
  | _ => none

/-- A whole number from zero to below two to the power 64. -/
def word? : Json → Option Nat
  | number (some (.whole n)) => if 0 ≤ n ∧ n < UInt64.size then some n.toNat else none
  | _ => none

/-- A number as a literal: an integer if it is a whole number and fits into 64 bits with a sign, and
otherwise a floating point number. -/
def Number.literal? : Number → Option Literal
  | .whole n =>
    match Numeral.toInt64? n with
    | some n => some (.int n)
    | none => if Fits n then some (.float n.toNat.toUInt64.toFloat) else none
  | .float x => some (.float x)

/-- A constant of a stored program. -/
def literal? : Json → Option Literal
  | bool b => some (.bool b)
  | number value => value.bind Number.literal?
  | string text => text.map .str
  | _ => none

/-- The members of an object by name, as a map in which the last member of a name counts. -/
def map? {α : Type} (value? : Json → Option α) : Json → Option (SortedMap String α)
  | object members => do
    let entries ← members.mapM fun (key, value) => do return (← key, ← value? value)
    return .ofList entries
  | _ => none

/-- The values of a record's fields, which stand in an object under their names or in an array in
their order.  A field may be missing and no field may stand twice; further members of an object are
passed over, and further items of an array are not allowed. -/
def fields? (names : List String) : Json → Option (List (Option Json))
  | object members => do
    let members ← members.mapM fun (key, value) => do return ((← key), value)
    let values := names.map fun name => (members.filter fun m => m.1 == name).map Prod.snd
    if values.all fun found => found.length ≤ 1 then some (values.map List.head?) else none
  | array items =>
    if items.length ≤ names.length then
      some (items.map some ++ List.replicate (names.length - items.length) none)
    else none
  | _ => none

end Json

namespace Program

/-- A stored instruction whose operation is still a name. -/
structure NamedInstruction where
  op : String
  arg1 : Nat
  arg2 : Nat
  deriving Repr, DecidableEq

/-- What a stored program holds before it is checked. -/
structure Unchecked where
  code : List NamedInstruction
  constants : List Literal
  variableNames : List String
  functions : SortedMap String Nat
  params : SortedMap String (List String)

/-- A stored instruction. -/
def instruction? (j : Json) : Option NamedInstruction :=
  match j.fields? ["op", "arg1", "arg2"] with
  | some [some op, some arg1, some arg2] => do
    return ⟨← op.text?, ← arg1.word?, ← arg2.word?⟩
  | _ => none

/-- A list of texts. -/
def texts? (j : Json) : Option (List String) := do
  (← j.items).mapM Json.text?

/-- What a stored program holds; the names of parameters may be missing. -/
def unchecked? (j : Json) : Option Unchecked :=
  match j.fields? ["code", "constants", "variables", "functions", "params"] with
  | some [some code, some constants, some variableNames, some functions, params] => do
    return {
      code := ← (← code.items).mapM instruction?
      constants := ← (← constants.items).mapM Json.literal?
      variableNames := ← texts? variableNames
      functions := ← functions.map? Json.word?
      params := ← match params with
        | some params => params.map? texts?
        | none => some .empty }
  | _ => none

/-- The operations of the stored instructions, or the first name that is none. -/
def namedCode (code : List NamedInstruction) : Except LoadFault (List Instruction) :=
  code.zipIdx.mapM fun (i, index) =>
    match Opcode.ofName? i.op with
    | some op => .ok ⟨op, i.arg1, i.arg2⟩
    | none => .error (.unknownOpcode i.op index)

/-- One past the largest first operand that an instruction may have, if its operation points
somewhere. -/
def operandLimit? (p : Program) : Opcode → Option Nat
  | .loadConst | .call => some p.constants.size
  | .loadVar | .storeVar => some p.variableNames.size
  | .jump | .jumpIfFalse => some (p.code.size + 1)
  | _ => none

/-- Check that every function starts inside the code or at its end, in the order of names. -/
def checkOffsets (p : Program) : Except LoadFault Unit :=
  p.functions.entries.forM fun (name, f) =>
    if p.code.size < f.offset then .error (.badFunctionOffset name f.offset p.code.size)
    else .ok ()

/-- Check that every operand points into its pool, in the order of the code. -/
def checkOperands (p : Program) : Except LoadFault Unit :=
  p.code.toList.zipIdx.forM fun (i, index) =>
    match p.operandLimit? i.op with
    | some limit =>
      if i.arg1 < limit then .ok () else .error (.operandOutOfRange index i.op i.arg1 limit)
    | none => .ok ()

/-- The program that a text stores, or why it is none. -/
def load (text : String) (codec : Json.Codec := .plain) : Except LoadFault Program := do
  match (codec.read? text).bind unchecked? with
  | none => .error .malformed
  | some raw =>
    let code ← namedCode raw.code
    let p : Program := {
      code := code.toArray
      constants := raw.constants.toArray
      variableNames := raw.variableNames.toArray
      functions := ⟨raw.functions.entries.map fun (name, offset) =>
        (name, ⟨offset, (raw.params.find? name).getD []⟩)⟩
      builtins := Builtin.names }
    p.checkOffsets
    p.checkOperands
    return p

end Program

end Scriptlet
