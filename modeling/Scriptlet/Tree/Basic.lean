import Scriptlet.Source.Span
import Scriptlet.Tree.Literal
import Scriptlet.Vocabulary.Operator

/-!
# Program trees

Expressions, statements and modules.  Every node carries its span, and every use of a name carries a
number of its own, by which later stages attach what they find out about it.
-/

namespace Scriptlet

/-- The operations on two operands. -/
inductive BinaryOp where
  | add
  | sub
  | mul
  | div
  | eq
  | notEq
  | lt
  | ltEq
  | gt
  | gtEq
  | and
  | or
  deriving Repr, DecidableEq

namespace BinaryOp

/-- All operations on two operands. -/
def all : List BinaryOp := [add, sub, mul, div, eq, notEq, lt, ltEq, gt, gtEq, and, or]

/-- The operation as it is written. -/
def symbol : BinaryOp → String
  | add => "+"
  | sub => "-"
  | mul => "*"
  | div => "/"
  | eq => "=="
  | notEq => "!="
  | lt => "<"
  | ltEq => "<="
  | gt => ">"
  | gtEq => ">="
  | and => "and"
  | or => "or"

/-- The operation that a mark between two operands stands for. -/
def ofOperator? : Operator → Option BinaryOp
  | .plus => some add
  | .minus => some sub
  | .star => some mul
  | .slash => some div
  | .eqEq => some eq
  | .notEq => some notEq
  | .lt => some lt
  | .ltEq => some ltEq
  | .gt => some gt
  | .gtEq => some gtEq
  | _ => none

/-- The operation written in a given way. -/
def ofSymbol? (s : String) : Option BinaryOp := all.find? fun op => op.symbol == s

end BinaryOp

/-- Expressions. -/
inductive Expr where
  | literal (span : Span) (value : Literal)
  | name (span : Span) (id : Nat) (name : String)
  | binary (span : Span) (op : BinaryOp) (left right : Expr)
  | not (span : Span) (operand : Expr)
  | call (span : Span) (id : Nat) (name : String) (args : List Expr)

namespace Expr

/-- Where an expression stands. -/
def span : Expr → Span
  | literal s _ => s
  | name s _ _ => s
  | binary s _ _ _ => s
  | not s _ => s
  | call s _ _ _ => s

/-- The same expression at another span. -/
def withSpan (s : Span) : Expr → Expr
  | literal _ value => literal s value
  | name _ id x => name s id x
  | binary _ op left right => binary s op left right
  | not _ operand => not s operand
  | call _ id x args => call s id x args

@[simp] theorem span_withSpan (s : Span) (e : Expr) : (e.withSpan s).span = s := by
  cases e <;> rfl

end Expr

/-- Statements. -/
inductive Stmt where
  | letStmt (span : Span) (name : String) (value : Option Expr)
  | fnStmt (span : Span) (name : String) (params : List String) (body : List Stmt)
  | returnStmt (span : Span) (value : Option Expr)
  | breakStmt (span : Span)
  | continueStmt (span : Span)
  | ifStmt (span : Span) (cond : Expr) (body : List Stmt)
  | ifElseStmt (span : Span) (cond : Expr) (body other : List Stmt)
  | whileStmt (span : Span) (cond : Expr) (body : List Stmt)
  | exprStmt (span : Span) (value : Expr)

/-- Where a statement stands. -/
def Stmt.span : Stmt → Span
  | letStmt s _ _ => s
  | fnStmt s _ _ _ => s
  | returnStmt s _ => s
  | breakStmt s => s
  | continueStmt s => s
  | ifStmt s _ _ => s
  | ifElseStmt s _ _ _ => s
  | whileStmt s _ _ => s
  | exprStmt s _ => s

/-- A block is a list of statements. -/
abbrev Block := List Stmt

/-- A module: its statements, and how many uses of names they hold. -/
structure Module where
  body : Block
  nodeCount : Nat

end Scriptlet
