import Scriptlet.Tree.Basic
import Scriptlet.Tree.Cursor

/-!
# From tokens to trees

Each function reads one construct at a cursor and gives the construct with the cursor behind it.
Operators are read by precedence: `binary` reads an expression whose operators bind at least as
tightly as asked.  The first argument bounds the depth of the recursion; `Module.parse` passes a
multiple of the number of tokens, which is never used up.
-/

namespace Scriptlet

namespace Parse

/-- The operation of a token with its precedence, if it is an operator that binds at least as
tightly as asked. -/
def operatorOf? (minPrec : Nat) (t : Token) : Option (BinaryOp × Nat) :=
  match t.kind with
  | .operator mark =>
    match mark.precedence?, BinaryOp.ofOperator? mark with
    | some prec, some op => if minPrec ≤ prec then some (op, prec) else none
    | _, _ => none
  | _ => none

/-- The operation ahead with its precedence, if it binds at least as tightly as asked. -/
def operatorAhead? (minPrec : Nat) (c : Cursor) : Option (BinaryOp × Nat) :=
  operatorOf? minPrec c.peek

/-- Whether a `return` here has no value: the line, the block or the input ends, or a semicolon
stands here. -/
def atStatementEnd (c : Cursor) : Bool :=
  c.atEnd || c.peek.kind == .newline || c.atMark .semicolon || c.atMark .rBrace

mutual

/-- An expression whose operators bind at least as tightly as `minPrec`. -/
def binary (depth : Nat) (minPrec : Nat) (c : Cursor) : Except SyntaxFault (Expr × Cursor) :=
  match depth with
  | 0 => .error .tooDeep
  | depth + 1 => do
    let (left, c) ← primary depth c
    operators depth minPrec left c

/-- The operators and right operands that follow a left operand. -/
def operators (depth : Nat) (minPrec : Nat) (left : Expr) (c : Cursor) :
    Except SyntaxFault (Expr × Cursor) :=
  match depth with
  | 0 => .error .tooDeep
  | depth + 1 =>
    match operatorAhead? minPrec c with
    | none => .ok (left, c)
    | some (op, prec) => do
      let (right, c) ← binary depth (prec + 1) c.advance
      operators depth minPrec (.binary (left.span.merge right.span) op left right) c

/-- An operand: a literal, a name, a call or an expression in parentheses. -/
def primary (depth : Nat) (c : Cursor) : Except SyntaxFault (Expr × Cursor) :=
  match depth with
  | 0 => .error .tooDeep
  | depth + 1 =>
    let t := c.peek
    match t.kind with
    | .number =>
      match Literal.ofNumber? t.text with
      | some value => .ok (.literal t.span value, c.advance)
      | none => .error (.invalidNumber t)
    | .string => .ok (.literal t.span (.str t.text), c.advance)
    | .keyword .trueWord => .ok (.literal t.span (.bool true), c.advance)
    | .keyword .falseWord => .ok (.literal t.span (.bool false), c.advance)
    | .identifier =>
      let c := c.advance
      let id := c.nextId
      if c.atMark .lParen then do
        let (args, c) ← arguments depth c.takeId.advance.skipNewlines
        let (_, c) ← c.expectMark .rParen
        return (.call (c.spanSince t.span) id t.text args, c)
      else .ok (.name t.span id t.text, c.takeId)
    | .operator .lParen => do
      let (inner, c) ← binary depth 0 c.advance.skipNewlines
      let (_, c) ← c.skipNewlines.expectMark .rParen
      return (inner.withSpan (c.spanSince t.span), c)
    | _ => .error (.expected .expression t)

/-- The arguments of a call up to the closing parenthesis; a comma may follow the last one. -/
def arguments (depth : Nat) (c : Cursor) : Except SyntaxFault (List Expr × Cursor) :=
  match depth with
  | 0 => .error .tooDeep
  | depth + 1 =>
    if c.atMark .rParen then .ok ([], c)
    else do
      let (arg, c) ← binary depth 0 c
      let c := c.skipNewlines
      if c.atMark .comma then
        let (args, c) ← arguments depth c.advance.skipNewlines
        return (arg :: args, c)
      else return ([arg], c)

end

/-- The parameters of a function up to the closing parenthesis; a comma may follow the last one. -/
def parameters (depth : Nat) (c : Cursor) : Except SyntaxFault (List String × Cursor) :=
  match depth with
  | 0 => .error .tooDeep
  | depth + 1 =>
    if c.atMark .rParen then .ok ([], c)
    else do
      let (param, c) ← c.expectName .parameterName
      let c := c.skipNewlines
      if c.atMark .comma then
        let (params, c) ← parameters depth c.advance.skipNewlines
        return (param.text :: params, c)
      else return ([param.text], c)

/-- A declaration of a variable with its value. -/
def letDecl (depth : Nat) (c : Cursor) : Except SyntaxFault (Stmt × Cursor) := do
  let (start, c) ← c.expectWord .letWord
  let (name, c) ← c.expectName .variableName
  let (_, c) ← c.expectMark .eq
  let (value, c) ← binary depth 0 c
  return (.letStmt (c.spanSince start.span) name.text (some value), c)

mutual

/-- A block in braces. -/
def block (depth : Nat) (c : Cursor) : Except SyntaxFault (Block × Cursor) :=
  match depth with
  | 0 => .error .tooDeep
  | depth + 1 => do
    let (opening, c) ← c.skipNewlines.expectMark .lBrace
    let (body, c) ← statements depth opening.span c.skipSeparators
    return (body, c.advance)

/-- The statements up to the closing brace of the block opened at a given span. -/
def statements (depth : Nat) (opened : Span) (c : Cursor) : Except SyntaxFault (Block × Cursor) :=
  match depth with
  | 0 => .error .tooDeep
  | depth + 1 =>
    if c.atMark .rBrace then .ok ([], c)
    else if c.atEnd then .error (.unterminatedBlock opened c.peek.span)
    else do
      let (first, c) ← statement depth c
      let (rest, c) ← statements depth opened c.skipSeparators
      return (first :: rest, c)

/-- A statement inside a block. -/
def statement (depth : Nat) (c : Cursor) : Except SyntaxFault (Stmt × Cursor) :=
  match depth with
  | 0 => .error .tooDeep
  | depth + 1 =>
    let start := c.peek.span
    if c.atWord .letWord then letDecl depth c
    else if c.atWord .returnWord then
      let c := c.advance
      if atStatementEnd c then .ok (.returnStmt (c.spanSince start) none, c)
      else do
        let (value, c) ← binary depth 0 c
        return (.returnStmt (c.spanSince start) (some value), c)
    else if c.atWord .ifWord then conditional depth c
    else if c.atWord .whileWord then do
      let (cond, c) ← binary depth 0 c.advance
      let (body, c) ← block depth c
      return (.whileStmt (c.spanSince start) cond body, c)
    else if c.peek.isName breakName then .ok (.breakStmt start, c.advance)
    else if c.peek.isName continueName then .ok (.continueStmt start, c.advance)
    else do
      let (value, c) ← binary depth 0 c
      return (.exprStmt value.span value, c)

/-- An `if` with its block and, if the word `else` follows, the other block; after `else` another
`if` may stand in place of a block. -/
def conditional (depth : Nat) (c : Cursor) : Except SyntaxFault (Stmt × Cursor) :=
  match depth with
  | 0 => .error .tooDeep
  | depth + 1 => do
    let (start, c) ← c.expectWord .ifWord
    let (cond, c) ← binary depth 0 c
    let (body, c) ← block depth c
    match c.passElse? with
    | none => return (.ifStmt (c.spanSince start.span) cond body, c)
    | some c =>
      if c.atWord .ifWord then
        let (other, c) ← conditional depth c
        return (.ifElseStmt (c.spanSince start.span) cond body [other], c)
      else
        let (other, c) ← block depth c
        return (.ifElseStmt (c.spanSince start.span) cond body other, c)

end

/-- A definition of a function. -/
def functionDef (depth : Nat) (c : Cursor) : Except SyntaxFault (Stmt × Cursor) := do
  let (start, c) ← c.expectWord .fnWord
  let (name, c) ← c.expectName .functionName
  let (_, c) ← c.expectMark .lParen
  let (params, c) ← parameters depth c.skipNewlines
  let (_, c) ← c.expectMark .rParen
  let (body, c) ← block depth c
  return (.fnStmt (c.spanSince start.span) name.text params body, c)

/-- The declarations and definitions of a module; other tokens between them are skipped. -/
def items (depth : Nat) (c : Cursor) : Except SyntaxFault (Block × Cursor) :=
  match depth with
  | 0 => .error .tooDeep
  | depth + 1 =>
    let c := c.skipSeparators
    if c.atEnd then .ok ([], c)
    else if c.atWord .letWord then do
      let (first, c) ← letDecl depth c
      let (rest, c) ← items depth c
      return (first :: rest, c)
    else if c.atWord .fnWord then do
      let (first, c) ← functionDef depth c
      let (rest, c) ← items depth c
      return (first :: rest, c)
    else items depth c.advance

/-- The depth of recursion that suffices for what is ahead of a cursor. -/
def depthFor (c : Cursor) : Nat := 8 * (c.ahead.length + 1)

end Parse

/-- The module that a list of tokens stands for, or the first fault. -/
def Module.parse (tokens : List Token) : Except SyntaxFault Module :=
  let start := Cursor.ofTokens tokens
  (Parse.items (Parse.depthFor start) start).map fun (body, c) => ⟨body, c.nextId⟩

end Scriptlet
