import Scriptlet.Proofs.Declarations

/-!
# The meaning of a module by its symbols

A module is evaluated along its tree as in `Module.evaluate`, but without names.  Every symbol of a
module has a cell.  A use of a name reads the cell of the symbol that it is bound to, a declaration
writes the cell of the symbol that it declares, and a call goes to the function that the called name
is bound to.  The symbols of a function have new cells in every call of it, all other symbols have
one cell for the whole program.

The symbol of a declaration is known by its number: evaluation counts the declarations that stand
before it in the text.
-/

namespace Scriptlet

/-! ## Cells -/

namespace SymbolTable

/-- A symbol stands for a variable. -/
def isVariable (t : SymbolTable) (k : Nat) : Bool := t.symbols[k]?.any fun s => s.kind == .variable

/-- A symbol belongs to a function. -/
def isLocal (t : SymbolTable) (k : Nat) : Bool := t.symbols[k]?.any fun s => t.inFunction s.scope

/-- The name of a symbol. -/
def nameOf (t : SymbolTable) (k : Nat) : String := t.symbols[k]?.elim "" Symbol.name

end SymbolTable

/-- What a running module can see and change, with a cell for every symbol. -/
structure Cells where
  /-- The cells of the active call, if there is one. -/
  own : Option (SortedMap Nat Value)
  /-- The cells of the symbols outside functions. -/
  shared : SortedMap Nat Value
  /-- The printed lines, the latest first. -/
  printed : List String
  /-- What was written to the screen, the latest first. -/
  screen : List String
  /-- The bytes of the input that are not read yet. -/
  input : List UInt8

namespace Cells

/-- The cells with which a module starts. -/
def initial (input : List UInt8) : Cells := ⟨none, .empty, [], [], input⟩

/-- The value of a symbol: what its cell has, or null if the cell is empty or the symbol is no
variable. -/
def read (t : SymbolTable) (c : Cells) (k : Nat) : Value :=
  if t.isVariable k then
    (if t.isLocal k then c.own.bind fun cells => cells.find? k else c.shared.find? k).getD .null
  else .null

/-- Write the cell of a symbol. -/
def write (t : SymbolTable) (c : Cells) (k : Nat) (value : Value) : Cells :=
  if t.isLocal k then { c with own := c.own.map fun cells => cells.insert k value }
  else { c with shared := c.shared.insert k value }

/-- Carry out a built-in function, which sees no variables. -/
def builtin (c : Cells) (echo : Bool) (args : List Value) (b : Builtin) : Value × Cells :=
  let (value, st) := Store.builtin ⟨none, .empty, c.printed, c.screen, c.input⟩ echo args b
  (value, { c with printed := st.printed, screen := st.screen, input := st.input })

end Cells

/-- Evaluation with cells comes to a result or a fault, or has no answer yet. -/
abbrev Eval := ExceptT Fault (StateT Cells Option)

/-- There is no answer yet. -/
def Eval.unfinished {α : Type} : Eval α := fun _ => none

/-- What a call of a symbol with some arguments comes to. -/
abbrev CellCaller := Nat → List Value → Eval Value

/-! ## Expressions -/

mutual

/-- The value of an expression. -/
def Expr.evalCells (r : Resolution) (call : CellCaller) : Expr → Eval Value
  | .literal _ value => return .ofLiteral value
  | .name _ id _ =>
    match r.bindings.find? id with
    | some k => return (← get).read r.table k
    | none => return .null
  | .binary _ op left right => do
    let a ← left.evalCells r call
    let b ← right.evalCells r call
    MonadExcept.ofExcept (op.apply a b)
  | .not _ operand => do
    let a ← operand.evalCells r call
    return .bool (!a.isTruthy)
  | .call _ id f args => do
    let vs ← Expr.evalsCells r call args
    match r.bindings.find? id with
    | some k => call k vs
    | none => throw (.unknownFunction f)

/-- The values of some expressions, from the first to the last. -/
def Expr.evalsCells (r : Resolution) (call : CellCaller) : List Expr → Eval (List Value)
  | [] => return []
  | e :: rest => do
    let v ← e.evalCells r call
    let vs ← Expr.evalsCells r call rest
    return v :: vs

end

/-! ## Statements -/

/-- Carry out a body as long as a test is true, for fewer than a given number of rounds. -/
def repeatCells (test : Eval Value) (body : Eval Flow) : Nat → Eval Flow
  | 0 => .unfinished
  | rounds + 1 => do
    let v ← test
    if v.isTruthy then
      match ← body with
      | .leave => return .next
      | .returned value => return .returned value
      | _ => repeatCells test body rounds
    else return .next

mutual

/-- Carry out a statement, inside or outside a loop of the same function.  The declarations in it
have the numbers from `n` on. -/
def Stmt.execCells (r : Resolution) (call : CellCaller) (rounds : Nat) (inLoop : Bool) (n : Nat) :
    Stmt → Eval Flow
  | .letStmt _ _ none => do
    modify fun c => c.write r.table n .null
    return .next
  | .letStmt _ _ (some value) => do
    let v ← value.evalCells r call
    modify fun c => c.write r.table n v
    return .next
  | .fnStmt _ _ _ _ => return .next
  | .returnStmt _ none => return .returned .null
  | .returnStmt _ (some value) => do
    let v ← value.evalCells r call
    return .returned v
  | .breakStmt _ => return if inLoop then .leave else .next
  | .continueStmt _ => return if inLoop then .again else .next
  | .ifStmt _ cond body => do
    let v ← cond.evalCells r call
    if v.isTruthy then Stmt.execsCells r call rounds inLoop n body else return .next
  | .ifElseStmt _ cond body other => do
    let v ← cond.evalCells r call
    if v.isTruthy then Stmt.execsCells r call rounds inLoop n body
    else Stmt.execsCells r call rounds inLoop (n + Stmt.declaredIn body) other
  | .whileStmt _ cond body =>
    repeatCells (cond.evalCells r call) (Stmt.execsCells r call rounds true n body) rounds
  | .exprStmt _ value => do
    let _ ← value.evalCells r call
    return .next

/-- Carry out statements in turn, up to the first that does not go on to the next. -/
def Stmt.execsCells (r : Resolution) (call : CellCaller) (rounds : Nat) (inLoop : Bool) (n : Nat) :
    List Stmt → Eval Flow
  | [] => return .next
  | s :: rest => do
    match ← s.execCells r call rounds inLoop n with
    | .next => Stmt.execsCells r call rounds inLoop (n + s.declared) rest
    | flow => return flow

end

/-! ## Functions and modules -/

mutual

/-- The functions defined in a statement, with the numbers of their symbols. -/
def Stmt.functions (n : Nat) : Stmt → List (Nat × Definition)
  | .fnStmt _ name params body =>
    (n, ⟨name, params, body⟩) :: Stmt.functionsIn (n + 1 + params.length) body
  | .ifStmt _ _ body => Stmt.functionsIn n body
  | .ifElseStmt _ _ body other =>
    Stmt.functionsIn n body ++ Stmt.functionsIn (n + Stmt.declaredIn body) other
  | .whileStmt _ _ body => Stmt.functionsIn n body
  | .letStmt _ _ _ | .returnStmt _ _ | .breakStmt _ | .continueStmt _ | .exprStmt _ _ => []

/-- The functions defined in some statements, with the numbers of their symbols. -/
def Stmt.functionsIn (n : Nat) : List Stmt → List (Nat × Definition)
  | [] => []
  | s :: rest => s.functions n ++ Stmt.functionsIn (n + s.declared) rest

end

/-- The functions of a module, with the numbers of their symbols. -/
def Module.functions (m : Module) : List (Nat × Definition) :=
  Stmt.functionsIn Builtin.names.length m.body

/-- Write the cells of parameters, which have the numbers from `n` on, with the arguments, or with
null if there are too few. -/
def bindCells (n : Nat) : List String → List Value → SortedMap Nat Value → SortedMap Nat Value
  | [], _, cells => cells
  | _ :: params, args, cells =>
    bindCells (n + 1) params args.tail (cells.insert n (args.headD .null))

/-- The value of a call of a function whose symbol is `k`: its body is carried out with cells of its
own, and the caller finds its own cells as they were. -/
def Definition.runCells (d : Definition) (r : Resolution) (call : CellCaller) (rounds k : Nat)
    (args : List Value) : Eval Value := do
  let before ← get
  set { before with own := some (bindCells (k + 1) d.params args .empty) }
  let flow ← Stmt.execsCells r call rounds false (k + 1 + d.params.length) d.body
  modify fun c => { c with own := before.own }
  return flow.value

/-- Call the function of a symbol, for which `enter` stands, else the built-in function of its
name. -/
def dispatchCells (echo : Bool) (r : Resolution) (functions : List (Nat × Definition))
    (enter : Nat → Definition → List Value → Eval Value) : CellCaller := fun k args =>
  match functions.lookup k with
  | some d => enter k d args
  | none =>
    match Builtin.ofName? (r.table.nameOf k) with
    | some b => modifyGet fun c => c.builtin echo args b
    | none => throw (.unknownFunction (r.table.nameOf k))

/-- Calls of the functions of a module, nested less deeply than a given number. -/
def callCells (echo : Bool) (r : Resolution) (functions : List (Nat × Definition)) :
    Nat → CellCaller
  | 0 => dispatchCells echo r functions fun _ _ _ => .unfinished
  | fuel + 1 => dispatchCells echo r functions fun k d args =>
    d.runCells r (callCells echo r functions fuel) fuel k args

/-- What can be seen of cells at the end, with the names of their symbols. -/
def Cells.observe (t : SymbolTable) (c : Cells) (fault : Option Fault) : Observation where
  fault := fault
  globals := .ofList (c.shared.entries.map fun e => (t.nameOf e.1, e.2))
  printed := c.printed
  screen := c.screen
  input := c.input

/-- What can be seen of an evaluation, if it has an answer. -/
def Eval.observation? {α : Type} (t : SymbolTable) :
    Option (Except Fault α × Cells) → Option Observation
  | some (.ok _, c) => some (c.observe t none)
  | some (.error cause, c) => some (c.observe t (some cause))
  | none => none

/-- The meaning of a module whose names are resolved, up to a number of rounds and of nested
calls. -/
def Module.evaluateCells (m : Module) (r : Resolution) (echo : Bool) (fuel : Nat)
    (input : List UInt8) : Option Observation :=
  Eval.observation? r.table <|
    Stmt.execsCells r (callCells echo r m.functions fuel) fuel false Builtin.names.length m.body
      (.initial input)

end Scriptlet
