import Scriptlet.Program.Basic
import Scriptlet.Tree.Basic

/-!
# From trees to instructions

The code of an expression leaves its value on the stack, and the code of a statement leaves the
stack as it was.  The number of instructions of a tree does not depend on the pools, so every jump
is written with its final target.
-/

namespace Scriptlet

/-- The operation of the machine that carries out an operation of the language. -/
def BinaryOp.opcode : BinaryOp → Opcode
  | add => .add
  | sub => .sub
  | mul => .mul
  | div => .div
  | eq => .eq
  | notEq => .neq
  | lt => .lt
  | ltEq => .lte
  | gt => .gt
  | gtEq => .gte
  | and => .and
  | or => .or

mutual

/-- The number of instructions of an expression. -/
def Expr.width : Expr → Nat
  | .literal _ _ => 1
  | .name _ _ _ => 1
  | .binary _ _ left right => left.width + right.width + 1
  | .not _ operand => operand.width + 1
  | .call _ _ _ args => Expr.widths args + 1

/-- The number of instructions of some expressions. -/
def Expr.widths : List Expr → Nat
  | [] => 0
  | e :: rest => e.width + Expr.widths rest

end

/-- The number of instructions of an expression that may be missing. -/
def Expr.width? : Option Expr → Nat
  | none => 0
  | some e => e.width

/-- Whether the last statement of a block is a `return`. -/
def endsWithReturn (body : List Stmt) : Bool :=
  match body.getLast? with
  | some (.returnStmt _ _) => true
  | _ => false

mutual

/-- The number of instructions of a statement. -/
def Stmt.width : Stmt → Nat
  | .letStmt _ _ none => 0
  | .letStmt _ _ (some value) => value.width + 1
  | .fnStmt _ _ _ body => 1 + Stmt.widths body + (if endsWithReturn body then 0 else 1)
  | .returnStmt _ value => Expr.width? value + 1
  | .breakStmt _ => 1
  | .continueStmt _ => 1
  | .ifStmt _ cond body => cond.width + 1 + Stmt.widths body
  | .ifElseStmt _ cond body other =>
    cond.width + 1 + Stmt.widths body + 1 + Stmt.widths other
  | .whileStmt _ cond body => cond.width + 1 + Stmt.widths body + 1
  | .exprStmt _ value => value.width + 1

/-- The number of instructions of some statements. -/
def Stmt.widths : List Stmt → Nat
  | [] => 0
  | s :: rest => s.width + Stmt.widths rest

end

namespace Program

/-- Append an instruction that loads a literal. -/
def loadConstant (p : Program) (value : Literal) : Program :=
  let (index, p) := p.addConstant value
  p.push ⟨.loadConst, index, 0⟩

/-- Append an instruction that loads a variable. -/
def loadVariable (p : Program) (name : String) : Program :=
  let (index, p) := p.addVariable name
  p.push ⟨.loadVar, index, 0⟩

/-- Append an instruction that stores into a variable. -/
def storeVariable (p : Program) (name : String) : Program :=
  let (index, p) := p.addVariable name
  p.push ⟨.storeVar, index, 0⟩

/-- Append an instruction that calls a function with a number of arguments. -/
def callFunction (p : Program) (name : String) (args : Nat) : Program :=
  let (index, p) := p.addConstant (.str name)
  p.push ⟨.call, index, args⟩

/-- Append an instruction without operands. -/
def plain (p : Program) (op : Opcode) : Program := p.push ⟨op, 0, 0⟩

/-- Append an instruction that goes to a target. -/
def goto (p : Program) (op : Opcode) (target : Nat) : Program := p.push ⟨op, target, 0⟩

mutual

/-- Append the code of an expression. -/
def expr (p : Program) : Expr → Program
  | .literal _ value => p.loadConstant value
  | .name _ _ x => p.loadVariable x
  | .binary _ op left right => ((p.expr left).expr right).plain op.opcode
  | .not _ operand => (p.expr operand).plain .not
  | .call _ _ f args => (p.exprs args).callFunction f args.length

/-- Append the code of some expressions. -/
def exprs (p : Program) : List Expr → Program
  | [] => p
  | e :: rest => (p.expr e).exprs rest

end

/-- Where a loop starts, and where the code behind it starts. -/
structure LoopBounds where
  start : Nat
  exit : Nat
  deriving Repr, DecidableEq

mutual

/-- Append the code of a statement inside a given loop, if any. -/
def stmt (p : Program) (around : Option LoopBounds) : Stmt → Program
  | .letStmt _ name none => (p.addVariable name).2
  | .letStmt _ name (some value) => (p.expr value).storeVariable name
  | .fnStmt _ name params body =>
    let start := p.offset + 1
    let finish := start + Stmt.widths body + (if endsWithReturn body then 0 else 1)
    let p := ((p.goto .jump finish).addFunction name ⟨start, params⟩).block none body
    if endsWithReturn body then p else p.plain .ret
  | .returnStmt _ none => p.plain .ret
  | .returnStmt _ (some value) => (p.expr value).plain .ret
  | .breakStmt _ =>
    match around with
    | some l => p.goto .jump l.exit
    | none => p.plain .nop
  | .continueStmt _ =>
    match around with
    | some l => p.goto .jump l.start
    | none => p.plain .nop
  | .ifStmt _ cond body =>
    let p := p.expr cond
    (p.goto .jumpIfFalse (p.offset + 1 + Stmt.widths body)).block around body
  | .ifElseStmt _ cond body other =>
    let p := p.expr cond
    let otherStart := p.offset + 1 + Stmt.widths body + 1
    let p := (p.goto .jumpIfFalse otherStart).block around body
    (p.goto .jump (otherStart + Stmt.widths other)).block around other
  | .whileStmt _ cond body =>
    let start := p.offset
    let p := p.expr cond
    let exit := p.offset + 1 + Stmt.widths body + 1
    ((p.goto .jumpIfFalse exit).block (some ⟨start, exit⟩) body).goto .jump start
  | .exprStmt _ value => (p.expr value).plain .pop

/-- Append the code of some statements. -/
def block (p : Program) (around : Option LoopBounds) : List Stmt → Program
  | [] => p
  | s :: rest => (p.stmt around s).block around rest

end

end Program

/-- The program of a module. -/
def Module.generate (m : Module) : Program := Program.empty.block none m.body

end Scriptlet
