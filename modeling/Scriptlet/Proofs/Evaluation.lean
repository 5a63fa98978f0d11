import Scriptlet.Machine.State
import Scriptlet.Tree.Basic
import Scriptlet.Vocabulary.Builtin

/-!
# The meaning of a module

A module is evaluated along its tree, without instructions, operand stack or frames.  An expression
has a value, a statement says how control goes on behind it, and both may change the store.  The
last argument of a loop and of a call counts rounds and nested calls that may still be started; when
it is used up, the answer is `unfinished`, which says nothing about the module.
-/

namespace Scriptlet

/-! ## Stores -/

/-- What a running module can see and change. -/
structure Store where
  /-- The variables of the active call, if there is one. -/
  locals : Option Variables
  /-- The variables outside all calls. -/
  globals : Variables
  /-- The printed lines, the latest first. -/
  printed : List String
  /-- What was written to the screen, the latest first. -/
  screen : List String
  /-- The bytes of the input that are not read yet. -/
  input : List UInt8

namespace Store

/-- The store in which a module starts. -/
def initial (input : List UInt8) (globals : Variables) : Store := ⟨none, globals, [], [], input⟩

/-- The value of a variable: of the active call, else outside all calls, else null. -/
def read (st : Store) (name : String) : Value :=
  match st.locals.bind fun vars => vars.find? name with
  | some value => value
  | none => (st.globals.find? name).getD .null

/-- Write a variable of the active call, or one outside all calls if there is no call. -/
def write (st : Store) (name : String) (value : Value) : Store :=
  match st.locals with
  | none => { st with globals := st.globals.insert name value }
  | some vars => { st with locals := some (vars.insert name value) }

/-- Print a line, which is also written to the screen if lines are echoed. -/
def print (st : Store) (echo : Bool) (line : String) : Store :=
  { st with
    printed := line :: st.printed
    screen := if echo then (line ++ "\n") :: st.screen else st.screen }

/-- Show the prompt, if there is one, and read a line of the input. -/
def ask (st : Store) (prompt : Option Value) : String × Store :=
  let (line, rest) := State.splitLine st.input
  let screen := match prompt with
    | none => st.screen
    | some value => value.shown :: st.screen
  (State.lineText line, { st with screen := screen, input := rest })

/-- Carry out a built-in function. -/
def builtin (st : Store) (echo : Bool) (args : List Value) : Builtin → Value × Store
  | .print => (.null, st.print echo (" ".intercalate (args.map Value.shown)))
  | .input =>
    let (line, st) := st.ask args.head?
    (.str line, st)

end Store

/-! ## Answers -/

/-- What comes of evaluating: a result, a fault, or nothing yet. -/
inductive Answer (α : Type) where
  | done (result : α) (st : Store)
  | fault (cause : Fault) (st : Store)
  | unfinished

/-- Go on with a result. -/
def Answer.bind {α β : Type} (r : Answer α) (f : α → Store → Answer β) : Answer β :=
  match r with
  | done result st => f result st
  | fault cause st => fault cause st
  | unfinished => unfinished

/-- The answer of an operation on values. -/
def Answer.ofExcept (r : Except Fault Value) (st : Store) : Answer Value :=
  match r with
  | .ok value => done value st
  | .error cause => fault cause st

/-- What a call of a name with some arguments comes to. -/
abbrev Caller := String → List Value → Store → Answer Value

/-- How control goes on behind a statement. -/
inductive Flow where
  | next
  | leave
  | again
  | returned (value : Value)

/-- The value of a call whose body ends this way. -/
def Flow.value : Flow → Value
  | returned value => value
  | _ => .null

/-! ## Expressions -/

/-- The value of an operation on two values. -/
def BinaryOp.apply : BinaryOp → Value → Value → Except Fault Value
  | add, a, b => Value.add a b
  | sub, a, b => Value.sub a b
  | mul, a, b => Value.mul a b
  | div, a, b => Value.div a b
  | eq, a, b => .ok (.bool (a.equals b))
  | notEq, a, b => .ok (.bool (!a.equals b))
  | lt, a, b => (Value.compare "<" a b).map fun order => .bool order.isLT
  | ltEq, a, b => (Value.compare "<=" a b).map fun order => .bool order.isLE
  | gt, a, b => (Value.compare ">" a b).map fun order => .bool order.isGT
  | gtEq, a, b => (Value.compare ">=" a b).map fun order => .bool order.isGE
  | and, a, b => .ok (.bool (a.isTruthy && b.isTruthy))
  | or, a, b => .ok (.bool (a.isTruthy || b.isTruthy))

mutual

/-- The value of an expression. -/
def Expr.eval (call : Caller) : Expr → Store → Answer Value
  | .literal _ value, st => .done (.ofLiteral value) st
  | .name _ _ x, st => .done (st.read x) st
  | .binary _ op left right, st =>
    (left.eval call st).bind fun a st =>
      (right.eval call st).bind fun b st => .ofExcept (op.apply a b) st
  | .not _ operand, st =>
    (operand.eval call st).bind fun a st => .done (.bool (!a.isTruthy)) st
  | .call _ _ f args, st => (Expr.evals call args st).bind fun vs st => call f vs st

/-- The values of some expressions, from the first to the last. -/
def Expr.evals (call : Caller) : List Expr → Store → Answer (List Value)
  | [], st => .done [] st
  | e :: rest, st =>
    (e.eval call st).bind fun v st =>
      (Expr.evals call rest st).bind fun vs st => .done (v :: vs) st

end

/-! ## Statements -/

/-- Carry out a body as long as a test is true, for fewer than a given number of rounds. -/
def repeatWhile (test : Store → Answer Value) (body : Store → Answer Flow) :
    Nat → Store → Answer Flow
  | 0, _ => .unfinished
  | rounds + 1, st =>
    (test st).bind fun v st =>
      if v.isTruthy then
        (body st).bind fun flow st =>
          match flow with
          | .leave => .done .next st
          | .returned value => .done (.returned value) st
          | _ => repeatWhile test body rounds st
      else .done .next st

mutual

/-- Carry out a statement, inside or outside a loop of the same function. -/
@[simp] def Stmt.exec (call : Caller) (rounds : Nat) (inLoop : Bool) : Stmt → Store → Answer Flow
  | .letStmt _ _ none, st => .done .next st
  | .letStmt _ x (some value), st =>
    (value.eval call st).bind fun v st => .done .next (st.write x v)
  | .fnStmt _ _ _ _, st => .done .next st
  | .returnStmt _ none, st => .done (.returned .null) st
  | .returnStmt _ (some value), st =>
    (value.eval call st).bind fun v st => .done (.returned v) st
  | .breakStmt _, st => .done (if inLoop then .leave else .next) st
  | .continueStmt _, st => .done (if inLoop then .again else .next) st
  | .ifStmt _ cond body, st =>
    (cond.eval call st).bind fun v st =>
      if v.isTruthy then Stmt.execs call rounds inLoop body st else .done .next st
  | .ifElseStmt _ cond body other, st =>
    (cond.eval call st).bind fun v st =>
      if v.isTruthy then Stmt.execs call rounds inLoop body st
      else Stmt.execs call rounds inLoop other st
  | .whileStmt _ cond body, st =>
    repeatWhile (fun st => cond.eval call st) (fun st => Stmt.execs call rounds true body st)
      rounds st
  | .exprStmt _ value, st => (value.eval call st).bind fun _ st => .done .next st

/-- Carry out statements in turn, up to the first that does not go on to the next. -/
@[simp] def Stmt.execs (call : Caller) (rounds : Nat) (inLoop : Bool) :
    List Stmt → Store → Answer Flow
  | [], st => .done .next st
  | s :: rest, st =>
    (s.exec call rounds inLoop st).bind fun flow st =>
      match flow with
      | .next => Stmt.execs call rounds inLoop rest st
      | flow => .done flow st

end

/-! ## Functions and modules -/

/-- A function as a module defines it. -/
structure Definition where
  name : String
  params : List String
  body : Block

mutual

/-- The functions defined in a statement, each before those defined in its body. -/
def Stmt.definitions : Stmt → List Definition
  | .fnStmt _ name params body => ⟨name, params, body⟩ :: Stmt.definitionsIn body
  | .ifStmt _ _ body => Stmt.definitionsIn body
  | .ifElseStmt _ _ body other => Stmt.definitionsIn body ++ Stmt.definitionsIn other
  | .whileStmt _ _ body => Stmt.definitionsIn body
  | .letStmt _ _ _ | .returnStmt _ _ | .breakStmt _ | .continueStmt _ | .exprStmt _ _ => []

/-- The functions defined in some statements. -/
def Stmt.definitionsIn : List Stmt → List Definition
  | [] => []
  | s :: rest => s.definitions ++ Stmt.definitionsIn rest

end

/-- The last function of a given name in a list of definitions. -/
def Definition.last? (defs : List Definition) (name : String) : Option Definition :=
  defs.reverse.find? fun d => d.name == name

/-- Write every parameter with its argument, or with null if there are too few arguments; further
arguments are dropped. -/
def bindAll : List String → List Value → Variables → Variables
  | [], _, vars => vars
  | param :: params, args, vars => bindAll params args.tail (vars.insert param (args.headD .null))

/-- The value of a call: its body is carried out with variables of its own, and the caller finds
its own variables as they were. -/
def Definition.run (d : Definition) (call : Caller) (rounds : Nat) (args : List Value)
    (st : Store) : Answer Value :=
  (Stmt.execs call rounds false d.body
    { st with locals := some (bindAll d.params args .empty) }).bind fun flow after =>
      .done flow.value { after with locals := st.locals }

/-- Call a built-in function, else the last function of that name, for which `enter` stands. -/
def dispatch (echo : Bool) (defs : List Definition)
    (enter : Definition → List Value → Store → Answer Value) : Caller := fun name args st =>
  match Builtin.ofName? name with
  | some b =>
    let (value, st) := st.builtin echo args b
    .done value st
  | none =>
    match Definition.last? defs name with
    | some d => enter d args st
    | none => .fault (.unknownFunction name) st

/-- Calls of the functions of a module, nested less deeply than a given number. -/
def callAmong (echo : Bool) (defs : List Definition) : Nat → Caller
  | 0 => dispatch echo defs fun _ _ _ => .unfinished
  | fuel + 1 => dispatch echo defs fun d args st => d.run (callAmong echo defs fuel) fuel args st

/-- How a program ended, if by a fault, and what can be seen of it then. -/
structure Observation where
  fault : Option Fault
  globals : Variables
  printed : List String
  screen : List String
  input : List UInt8
  deriving DecidableEq

/-- What can be seen of a store at the end. -/
def Store.observe (st : Store) (fault : Option Fault) : Observation :=
  ⟨fault, st.globals, st.printed, st.screen, st.input⟩

/-- What can be seen of an answer, if there is one. -/
def Answer.observation? {α : Type} : Answer α → Option Observation
  | done _ st => some (st.observe none)
  | fault cause st => some (st.observe (some cause))
  | unfinished => none

/-- The meaning of a module, up to a number of rounds and of nested calls. -/
def Module.evaluate (m : Module) (echo : Bool) (fuel : Nat) (input : List UInt8)
    (globals : Variables) : Option Observation :=
  (Stmt.execs (callAmong echo (Stmt.definitionsIn m.body) fuel) fuel false m.body
    (.initial input globals)).observation?

end Scriptlet
