import Scriptlet.Program.Opcode
import Scriptlet.SortedMap
import Scriptlet.Tree.Literal
import Scriptlet.Vocabulary.Builtin

/-!
# Compiled programs

A program is a list of instructions with the pools their operands point into: constants, names of
variables, and functions by name.
-/

namespace Scriptlet

/-- An operation with two operands, of which it may use none, one or both. -/
structure Instruction where
  op : Opcode
  arg1 : Nat := 0
  arg2 : Nat := 0
  deriving Repr, DecidableEq

/-- Where a function starts, and the names of its parameters. -/
structure FunctionEntry where
  offset : Nat
  params : List String
  deriving Repr, DecidableEq

/-- A compiled program. -/
structure Program where
  code : Array Instruction
  constants : Array Literal
  variableNames : Array String
  functions : SortedMap String FunctionEntry
  builtins : List String

namespace Program

/-- The program without instructions. -/
def empty : Program := ⟨#[], #[], #[], .empty, Builtin.names⟩

/-- Put a literal into the constant pool, and give its index; a literal that agrees with one in the
pool shares its place. -/
def addConstant (p : Program) (value : Literal) : Nat × Program :=
  match p.constants.findIdx? value.agrees with
  | some index => (index, p)
  | none => (p.constants.size, { p with constants := p.constants.push value })

/-- Put a name into the variable pool, and give its index; a name in the pool keeps its place. -/
def addVariable (p : Program) (name : String) : Nat × Program :=
  match p.variableNames.findIdx? (· == name) with
  | some index => (index, p)
  | none => (p.variableNames.size, { p with variableNames := p.variableNames.push name })

/-- Append an instruction. -/
def push (p : Program) (i : Instruction) : Program := { p with code := p.code.push i }

/-- Where the next instruction goes. -/
def offset (p : Program) : Nat := p.code.size

/-- Point the instruction at an offset to a target; past the end of the code nothing changes. -/
def redirect (p : Program) (site target : Nat) : Program :=
  { p with code := p.code.modify site fun i => { i with arg1 := target } }

/-- Enter a function; an earlier one of the same name is replaced. -/
def addFunction (p : Program) (name : String) (entry : FunctionEntry) : Program :=
  { p with functions := p.functions.insert name entry }

/-- The function of a given name. -/
def function? (p : Program) (name : String) : Option FunctionEntry := p.functions.find? name

/-- The first function, in the order of names, that starts at an offset. -/
def functionAt? (p : Program) (offset : Nat) : Option (String × FunctionEntry) :=
  p.functions.entries.find? fun e => e.2.offset == offset

/-- Whether a name is one of the program's built-in functions. -/
def isBuiltin (p : Program) (name : String) : Bool := p.builtins.contains name

/-- Whether two programs are equal, with constants compared as values. -/
def agrees (p q : Program) : Bool :=
  p.code == q.code
    && p.constants.size == q.constants.size
    && (p.constants.toList.zip q.constants.toList).all (fun (a, b) => a.agrees b)
    && p.variableNames == q.variableNames
    && p.functions == q.functions
    && p.builtins == q.builtins

end Program

end Scriptlet
