import Scriptlet.Text.Layout
import Scriptlet.Tree.Basic

/-!
# Outlines of trees

A tree as indented text, with one field or item on each line.
-/

namespace Scriptlet

/-- A value as an outline shows it: a bare word, a record with named fields, a constructor around
items, or a list. -/
inductive Outline where
  | word (text : String)
  | record (name : String) (fields : List (String × Outline))
  | wrapped (name : String) (items : List Outline)
  | list (items : List Outline)

namespace Outline

/-- Lines between two brackets, each one level deeper and with a comma behind it. -/
def enclosed (opening closing : String) (level : Nat) (lines : List String) : String :=
  let inner := Text.spaces (4 * (level + 1))
  opening ++ "\n" ++ String.join (lines.map (inner ++ · ++ ",\n"))
    ++ Text.spaces (4 * level) ++ closing

mutual

/-- The text of an outline at a level of indentation. -/
def text (level : Nat) : Outline → String
  | word text => text
  | record name fields => enclosed (name ++ " \x7b") "\x7d" level (fieldTexts (level + 1) fields)
  | wrapped name items => enclosed (name ++ "(") ")" level (itemTexts (level + 1) items)
  | list items =>
    if items.isEmpty then "[]" else enclosed "[" "]" level (itemTexts (level + 1) items)

/-- The texts of items. -/
def itemTexts (level : Nat) : List Outline → List String
  | [] => []
  | item :: rest => text level item :: itemTexts level rest

/-- The texts of fields with their names. -/
def fieldTexts (level : Nat) : List (String × Outline) → List String
  | [] => []
  | (name, value) :: rest => (name ++ ": " ++ text level value) :: fieldTexts level rest

end

/-- A number. -/
def number (n : Nat) : Outline := word (toString n)

/-- A text in quotes. -/
def quotedText (s : String) : Outline := word (Text.quoted s)

/-- A value that may be missing. -/
def optional (f : α → Outline) : Option α → Outline
  | none => word "None"
  | some a => wrapped "Some" [f a]

/-- A span. -/
def ofSpan (s : Span) : Outline :=
  record "Span" [("start", number s.start), ("end", number s.stop), ("line", number s.line),
    ("column", number s.column)]

/-- A node with its span. -/
def spanned (span : Span) (node : Outline) : Outline :=
  record "Spanned" [("node", node), ("span", ofSpan span)]

/-- The number of a use of a name. -/
def nodeId (id : Nat) : Outline := wrapped "NodeId" [number id]

/-- A literal. -/
def ofLiteral (value : Literal) : Outline :=
  let name := match value with
    | .int _ => "Int"
    | .float _ => "Float"
    | .str _ => "Str"
    | .bool _ => "Bool"
  wrapped name [word value.shown]

/-- The name of an operation on two operands. -/
def operationName : BinaryOp → String
  | .add => "Add"
  | .sub => "Sub"
  | .mul => "Mul"
  | .div => "Div"
  | .eq => "Eq"
  | .notEq => "NotEq"
  | .lt => "Lt"
  | .ltEq => "LtEq"
  | .gt => "Gt"
  | .gtEq => "GtEq"
  | .and => "And"
  | .or => "Or"

mutual

/-- An expression. -/
def ofExpr : Expr → Outline
  | .literal span value => spanned span (wrapped "Literal" [ofLiteral value])
  | .name span id x =>
    spanned span (wrapped "VarRef" [record "VarRef" [("id", nodeId id), ("name", quotedText x)]])
  | .binary span op left right =>
    spanned span (record "BinaryOp" [("left", ofExpr left), ("op", word (operationName op)),
      ("right", ofExpr right)])
  | .not span operand => spanned span (wrapped "Not" [ofExpr operand])
  | .call span id f args =>
    spanned span (wrapped "Call" [record "CallExpr" [("id", nodeId id), ("name", quotedText f),
      ("args", list (ofExprs args))]])

/-- Expressions. -/
def ofExprs : List Expr → List Outline
  | [] => []
  | e :: rest => ofExpr e :: ofExprs rest

end

/-- The outline of a condition with one or two blocks. -/
def conditional (cond body other : Outline) : Outline :=
  wrapped "If" [record "IfStmt" [("cond", cond), ("then_body", body), ("else_body", other)]]

mutual

/-- A statement. -/
def ofStmt : Stmt → Outline
  | .letStmt span name value =>
    spanned span (wrapped "VarDecl" [record "VarDecl" [("name", quotedText name),
      ("value", optional ofExpr value)]])
  | .fnStmt span name params body =>
    spanned span (wrapped "FunctionDef" [record "FunctionDef" [("name", quotedText name),
      ("params", list (params.map quotedText)), ("body", list (ofBlock body))]])
  | .returnStmt span value => spanned span (wrapped "Return" [optional ofExpr value])
  | .breakStmt span => spanned span (word "Break")
  | .continueStmt span => spanned span (word "Continue")
  | .ifStmt span cond body =>
    spanned span (conditional (ofExpr cond) (list (ofBlock body)) (word "None"))
  | .ifElseStmt span cond body other =>
    spanned span (conditional (ofExpr cond) (list (ofBlock body))
      (wrapped "Some" [list (ofBlock other)]))
  | .whileStmt span cond body =>
    spanned span (wrapped "While" [record "WhileStmt" [("cond", ofExpr cond),
      ("body", list (ofBlock body))]])
  | .exprStmt span value => spanned span (wrapped "Expr" [ofExpr value])

/-- Statements. -/
def ofBlock : List Stmt → List Outline
  | [] => []
  | s :: rest => ofStmt s :: ofBlock rest

end

/-- A module. -/
def ofModule (m : Module) : Outline :=
  record "Module" [("body", list (ofBlock m.body)), ("node_count", number m.nodeCount)]

end Outline

end Scriptlet
