import Scriptlet.Scope.Table
import Scriptlet.Source.Diagnostic
import Scriptlet.Tree.Basic

/-!
# Finding the declaration of every name

A walk over a module declares its names in a symbol table and binds every use of a name to a symbol.
It does not stop at a fault: what can still be checked is checked, and the faults are listed in the
order of the walk.
-/

namespace Scriptlet

/-- How a module can break the rules of scoping. -/
inductive ScopeFault where
  | duplicateVariable (name : String)
  | duplicateFunction (name : String)
  | duplicateParameter (param function : String)
  | nestedFunction (name : String)
  | undeclaredVariable (name : String)
  | undeclaredFunction (name : String)
  | notCallable (name : String)
  | arityMismatch (name : String) (expected got : Nat)
  | breakOutsideLoop
  | continueOutsideLoop
  | returnOutsideFunction
  deriving Repr, DecidableEq

/-- The wording of a fault. -/
def ScopeFault.message : ScopeFault → String
  | duplicateVariable name => "Duplicate variable declaration: " ++ name
  | duplicateFunction name => "Duplicate function declaration: " ++ name
  | duplicateParameter param function =>
    "Duplicate parameter name: " ++ param ++ " in function " ++ function
  | nestedFunction name => "Function definition is only allowed at top level: " ++ name
  | undeclaredVariable name => "Use of undeclared variable: " ++ name
  | undeclaredFunction name => "Call to undeclared function: " ++ name
  | notCallable name => "Symbol is not callable: " ++ name
  | arityMismatch name expected got =>
    "Arity mismatch in call to " ++ name ++ ": expected " ++ toString expected ++ ", got "
      ++ toString got
  | breakOutsideLoop => "\x27break\x27 used outside of loop"
  | continueOutsideLoop => "\x27continue\x27 used outside of loop"
  | returnOutsideFunction => "\x27return\x27 used outside of function"

/-- A fault with the span of the node at which it shows. -/
structure LocatedScopeFault where
  fault : ScopeFault
  span : Span
  deriving Repr, DecidableEq

/-- The diagnostic of a fault. -/
def LocatedScopeFault.diagnostic (f : LocatedScopeFault) : Diagnostic where
  stage := .semantic
  message := f.fault.message
  span := f.span

/-- What a module's names stand for: its symbols, and the symbol of every use of a name. -/
structure Resolution where
  table : SymbolTable
  bindings : SortedMap Nat Nat
  deriving Repr, DecidableEq

/-- What surrounds a statement: how many loops of the same function, and whether a function. -/
structure Surroundings where
  loops : Nat
  inFunction : Bool
  deriving Repr, DecidableEq

/-- The state of the walk: what is found so far, and the faults. -/
structure Walk where
  found : Resolution
  faults : List LocatedScopeFault
  deriving Repr, DecidableEq

namespace Walk

/-- The state before the first statement. -/
def initial : Walk := ⟨⟨.initial, .empty⟩, []⟩

/-- The symbol table of the walk. -/
def table (w : Walk) : SymbolTable := w.found.table

/-- Change the symbol table. -/
def withTable (w : Walk) (t : SymbolTable) : Walk :=
  { w with found := { w.found with table := t } }

/-- Record a fault. -/
def report (w : Walk) (fault : ScopeFault) (span : Span) : Walk :=
  { w with faults := w.faults ++ [⟨fault, span⟩] }

/-- Record a fault under a condition. -/
def reportIf (w : Walk) (condition : Bool) (fault : ScopeFault) (span : Span) : Walk :=
  if condition then w.report fault span else w

/-- Bind a use of a name to a symbol. -/
def bind (w : Walk) (node symbol : Nat) : Walk :=
  { w with found := { w.found with bindings := w.found.bindings.insert node symbol } }

/-- Declare a name in the current scope, or record a fault if the scope has it already. -/
def declare (w : Walk) (name : String) (kind : SymbolKind) (span : Span) (fault : ScopeFault) :
    Walk :=
  match w.table.lookupLocal name with
  | some _ => w.report fault span
  | none => w.withTable (w.table.define name kind span)

/-- Open a scope. -/
def enter (w : Walk) (kind : ScopeKind) : Walk := w.withTable (w.table.enter kind)

/-- Close the current scope. -/
def exit (w : Walk) : Walk := w.withTable w.table.exit

/-- Bind a variable that is used. -/
def useVariable (w : Walk) (node : Nat) (name : String) (span : Span) : Walk :=
  match w.table.lookup name with
  | some symbol => w.bind node symbol
  | none => w.report (.undeclaredVariable name) span

/-- Bind a function that is called with a number of arguments. -/
def useFunction (w : Walk) (node : Nat) (name : String) (args : Nat) (span : Span) : Walk :=
  match w.table.lookup name with
  | none => w.report (.undeclaredFunction name) span
  | some symbol =>
    match (w.table.symbols[symbol]?).map Symbol.kind with
    | some (.function params) =>
      if params.length = args then w.bind node symbol
      else w.report (.arityMismatch name params.length args) span
    | some .builtin => w.bind node symbol
    | _ => w.report (.notCallable name) span

/-- Declare the parameters of a function. -/
def parameters (w : Walk) (function : String) (params : List String) (span : Span) : Walk :=
  params.foldl (fun w p => w.declare p .variable span (.duplicateParameter p function)) w

mutual

/-- Walk over an expression. -/
def expr (w : Walk) : Expr → Walk
  | .literal _ _ => w
  | .name span id x => w.useVariable id x span
  | .binary _ _ left right => (w.expr left).expr right
  | .not _ operand => w.expr operand
  | .call span id f args => (w.exprs args).useFunction id f args.length span

/-- Walk over expressions in turn. -/
def exprs (w : Walk) : List Expr → Walk
  | [] => w
  | e :: rest => (w.expr e).exprs rest

end

/-- Walk over an expression that may be missing. -/
def expr? (w : Walk) : Option Expr → Walk
  | none => w
  | some e => w.expr e

mutual

/-- Walk over a statement. -/
def stmt (w : Walk) (around : Surroundings) : Stmt → Walk
  | .letStmt span name value =>
    (w.expr? value).declare name .variable span (.duplicateVariable name)
  | .fnStmt span name params body =>
    let w := w.reportIf (w.table.currentKind != .global) (.nestedFunction name) span
    let w := w.declare name (.function params) span (.duplicateFunction name)
    let w := (w.enter .function).parameters name params span
    (w.block ⟨0, true⟩ body).exit
  | .returnStmt span value =>
    (w.reportIf (!around.inFunction) .returnOutsideFunction span).expr? value
  | .breakStmt span => w.reportIf (around.loops == 0) .breakOutsideLoop span
  | .continueStmt span => w.reportIf (around.loops == 0) .continueOutsideLoop span
  | .ifStmt _ cond body => (((w.expr cond).enter .block).block around body).exit
  | .ifElseStmt _ cond body other =>
    let w := (((w.expr cond).enter .block).block around body).exit
    ((w.enter .block).block around other).exit
  | .whileStmt _ cond body =>
    (((w.expr cond).enter .block).block { around with loops := around.loops + 1 } body).exit
  | .exprStmt _ value => w.expr value

/-- Walk over statements in turn. -/
def block (w : Walk) (around : Surroundings) : List Stmt → Walk
  | [] => w
  | s :: rest => (w.stmt around s).block around rest

end

end Walk

/-- What the names of a module stand for, or all its faults. -/
def Module.resolve (m : Module) : Except (List LocatedScopeFault) Resolution :=
  let w := Walk.initial.block ⟨0, false⟩ m.body
  if w.faults.isEmpty then .ok w.found else .error w.faults

end Scriptlet
