import Scriptlet.Tree.Parse

/-!
# Reading tokens by index

A parser may keep its tokens in an array and its place in it as an index.  Then every look at a
token can go astray, and every loop can run on without an end.  The reader of this module watches
itself: an index outside of the array, a turn of a loop that does not move, more turns of a loop
than there are tokens and calls that are nested too deeply are breaches, which stop it with an
answer of their own.  That there are never any is shown in `Scriptlet.Proofs.IndexSafety`.
-/

namespace Scriptlet

/-- What a reader must not do, whatever its tokens are. -/
inductive Breach where
  /-- It looks or moves to an index outside of the tokens. -/
  | outside (index size : Nat)
  /-- A turn of a loop goes on with the next one, but has read nothing. -/
  | stalled (pos : Nat)
  /-- A loop takes more turns than there are tokens. -/
  | endless
  /-- The calls are nested more deeply than allowed. -/
  | tooDeep
  deriving Repr, DecidableEq

/-- Why a reader stops. -/
inductive Stop where
  | fault (d : Diagnostic)
  | breach (b : Breach)
  deriving Repr, DecidableEq

/-- An array of tokens and the index of the next one. -/
structure TokenReader where
  tokens : Array Token
  pos : Nat
  /-- The number that the next use of a name gets, counted as `Cursor.nextId` is. -/
  nextId : Nat
  deriving Repr, DecidableEq

namespace TokenReader

/-- Tokens with the end of the input behind the last of them, if it is not there already. -/
def closed (tokens : List Token) : List Token :=
  match tokens.getLast? with
  | none => [Token.endAt .zero]
  | some t =>
    if t.kind = .endOfInput then tokens else tokens ++ [Token.endAt t.span.atStop]

/-- The reader at the first of some tokens.  Comments are left out. -/
def ofTokens (tokens : List Token) : TokenReader where
  tokens := (closed (tokens.filter fun t => t.kind != .comment)).toArray
  pos := 0
  nextId := 0

/-! ## Looking and moving -/

/-- The token at an index. -/
def look (r : TokenReader) (index : Nat) : Except Stop Token :=
  match r.tokens[index]? with
  | some t => .ok t
  | none => .error (.breach (.outside index r.tokens.size))

/-- The reader at another index. -/
def moveTo (r : TokenReader) (index : Nat) : Except Stop TokenReader :=
  if index < r.tokens.size then .ok { r with pos := index }
  else .error (.breach (.outside index r.tokens.size))

/-- The token to be read next. -/
def peek (r : TokenReader) : Except Stop Token := r.look r.pos

/-- The reader behind the next token; the end of the input is not passed. -/
def advance (r : TokenReader) : Except Stop TokenReader := do
  let t ← r.peek
  if t.kind == .endOfInput then return r else r.moveTo (r.pos + 1)

/-- Whether the next token satisfies a condition. -/
def test (r : TokenReader) (p : Token → Bool) : Except Stop Bool := do
  let t ← r.peek
  return p t

/-- Whether the next token is a given mark. -/
def atMark (r : TokenReader) (o : Operator) : Except Stop Bool := r.test (·.isOperator o)

/-- Whether the next token is a given reserved word. -/
def atWord (r : TokenReader) (k : Keyword) : Except Stop Bool := r.test (·.isKeyword k)

/-- Whether the next token is a given name. -/
def atName (r : TokenReader) (name : String) : Except Stop Bool := r.test (·.isName name)

/-- Whether the next token is the end of the input. -/
def atEnd (r : TokenReader) : Except Stop Bool := r.test fun t => t.kind == .endOfInput

/-- Whether a `return` here has no value. -/
def atStatementEnd (r : TokenReader) : Except Stop Bool := r.test fun t =>
  t.kind == .endOfInput || t.kind == .newline || t.isOperator .semicolon || t.isOperator .rBrace

/-- Where the next token stands. -/
def peekSpan (r : TokenReader) : Except Stop Span := do
  let t ← r.peek
  return t.span

/-- The stretch from the start of a span to the token read last. -/
def spanSince (r : TokenReader) (start : Span) : Except Stop Span := do
  let t ← r.look (r.pos - 1)
  return start.merge t.span

/-- The reader behind a number that has been given out. -/
def takeId (r : TokenReader) : TokenReader := { r with nextId := r.nextId + 1 }

/-- Read the next token if it satisfies a condition. -/
def expect (r : TokenReader) (p : Token → Bool) (what : Expectation) :
    Except Stop (Token × TokenReader) := do
  let t ← r.peek
  if p t then return (t, ← r.advance)
  else .error (.fault (SyntaxFault.expected what t).diagnostic)

/-- Read a mark. -/
def expectMark (r : TokenReader) (o : Operator) : Except Stop (Token × TokenReader) :=
  r.expect (·.isOperator o) (.mark o)

/-- Read a reserved word. -/
def expectWord (r : TokenReader) (k : Keyword) : Except Stop (Token × TokenReader) :=
  r.expect (·.isKeyword k) (.word k)

/-- Read a name. -/
def expectName (r : TokenReader) (what : Expectation) : Except Stop (Token × TokenReader) :=
  r.expect (fun t => t.kind == .identifier) what

/-! ## Loops -/

/-- Take turns until one gives a result, but no more than allowed.  A turn that gives none goes on
with what it gives instead, and has to have moved. -/
def turns {α β : Type} (turn : α → TokenReader → Except Stop ((α ⊕ β) × TokenReader)) :
    Nat → α → TokenReader → Except Stop (β × TokenReader)
  | 0, _, _ => .error (.breach .endless)
  | n + 1, a, r => do
    match ← turn a r with
    | (.inr b, r') => return (b, r')
    | (.inl a', r') =>
      if r.pos < r'.pos then turns turn n a' r' else .error (.breach (.stalled r.pos))

/-- A loop takes at most as many turns as there are tokens. -/
def loop {α β : Type} (r : TokenReader) (start : α)
    (turn : α → TokenReader → Except Stop ((α ⊕ β) × TokenReader)) :
    Except Stop (β × TokenReader) :=
  turns turn r.tokens.size start r

/-- One turn of `skipWhile`. -/
def skipTurn (p : Token → Bool) (_ : Unit) (r : TokenReader) :
    Except Stop ((Unit ⊕ Unit) × TokenReader) := do
  if ← r.test p then return (.inl (), ← r.advance) else return (.inr (), r)

/-- The reader behind the tokens that satisfy a condition. -/
def skipWhile (p : Token → Bool) (r : TokenReader) : Except Stop TokenReader := do
  let (_, r) ← r.loop () (skipTurn p)
  return r

/-- Skip line ends. -/
def skipNewlines (r : TokenReader) : Except Stop TokenReader :=
  r.skipWhile fun t => t.kind == .newline

/-- Skip line ends and semicolons. -/
def skipSeparators (r : TokenReader) : Except Stop TokenReader :=
  r.skipWhile fun t => t.kind == .newline || t.isOperator .semicolon

/-- The first index, from a given one on, that has no line end.  The reader itself stays where it
is. -/
def passNewlines (r : TokenReader) : Nat → Nat → Except Stop Nat
  | 0, _ => .error (.breach .endless)
  | n + 1, index => do
    let t ← r.look index
    if t.kind == .newline then r.passNewlines n (index + 1) else return index

/-! ## Expressions -/

/-- One operator with its right operand, read by `operand`. -/
def operatorTurn (operand : Nat → TokenReader → Except Stop (Expr × TokenReader)) (minPrec : Nat)
    (left : Expr) (r : TokenReader) : Except Stop ((Expr ⊕ Expr) × TokenReader) := do
  let t ← r.peek
  match Parse.operatorOf? minPrec t with
  | none => return (.inr left, r)
  | some (op, prec) =>
    let (right, r) ← operand (prec + 1) (← r.advance)
    return (.inl (.binary (left.span.merge right.span) op left right), r)

/-- One item of a list in parentheses, read by `item`.  A comma may follow the last one. -/
def listTurn {α : Type} (item : TokenReader → Except Stop (α × TokenReader)) (items : List α)
    (r : TokenReader) : Except Stop ((List α ⊕ List α) × TokenReader) := do
  let (x, r) ← item (← r.skipNewlines)
  let items := items ++ [x]
  let r ← r.skipNewlines
  if ← r.atMark .comma then
    let r ← (← r.advance).skipNewlines
    if ← r.atMark .rParen then return (.inr items, r) else return (.inl items, r)
  else return (.inr items, r)

/-- The items of a list up to the closing parenthesis, read by `item`. -/
def list {α : Type} (r : TokenReader) (item : TokenReader → Except Stop (α × TokenReader)) :
    Except Stop (List α × TokenReader) := do
  let r ← r.skipNewlines
  if ← r.atMark .rParen then return ([], r) else r.loop [] (listTurn item)

mutual

/-- An expression whose operators bind at least as tightly as `minPrec`. -/
def binary (depth : Nat) (minPrec : Nat) (r : TokenReader) : Except Stop (Expr × TokenReader) :=
  match depth with
  | 0 => .error (.breach .tooDeep)
  | depth + 1 => do
    let (left, r) ← primary depth r
    r.loop left (operatorTurn (binary depth) minPrec)

/-- An operand: a literal, a name, a call or an expression in parentheses. -/
def primary (depth : Nat) (r : TokenReader) : Except Stop (Expr × TokenReader) :=
  match depth with
  | 0 => .error (.breach .tooDeep)
  | depth + 1 => do
    let t ← r.peek
    match t.kind with
    | .number =>
      let r ← r.advance
      match Literal.ofNumber? t.text with
      | some value => return (.literal t.span value, r)
      | none => .error (.fault (SyntaxFault.invalidNumber t).diagnostic)
    | .string => return (.literal t.span (.str t.text), ← r.advance)
    | .keyword .trueWord => return (.literal t.span (.bool true), ← r.advance)
    | .keyword .falseWord => return (.literal t.span (.bool false), ← r.advance)
    | .identifier =>
      let r ← r.advance
      if ← r.atMark .lParen then call depth t r
      else return (.name t.span r.nextId t.text, r.takeId)
    | .operator .lParen =>
      let (inner, r) ← binary depth 0 (← (← r.advance).skipNewlines)
      let (_, r) ← (← r.skipNewlines).expectMark .rParen
      return (inner.withSpan (← r.spanSince t.span), r)
    | _ => .error (.fault (SyntaxFault.expected .expression t).diagnostic)

/-- The arguments of a call whose name has been read. -/
def call (depth : Nat) (callee : Token) (r : TokenReader) : Except Stop (Expr × TokenReader) :=
  match depth with
  | 0 => .error (.breach .tooDeep)
  | depth + 1 => do
    let id := r.nextId
    let (_, r) ← r.takeId.expectMark .lParen
    let (args, r) ← r.list (binary depth 0)
    let (_, r) ← r.expectMark .rParen
    return (.call (← r.spanSince callee.span) id callee.text args, r)

end

/-! ## Statements -/

/-- A parameter of a function. -/
def parameter (r : TokenReader) : Except Stop (String × TokenReader) := do
  let (t, r) ← r.expectName .parameterName
  return (t.text, r)

/-- A declaration of a variable with its value. -/
def letDecl (depth : Nat) (r : TokenReader) : Except Stop (Stmt × TokenReader) := do
  let (start, r) ← r.expectWord .letWord
  let (name, r) ← r.expectName .variableName
  let (_, r) ← r.expectMark .eq
  let (value, r) ← binary depth 0 r
  return (.letStmt (← r.spanSince start.span) name.text (some value), r)

/-- One statement, read by `statement`, of the block opened at a given span. -/
def blockTurn (statement : TokenReader → Except Stop (Stmt × TokenReader)) (opened : Span)
    (body : Block) (r : TokenReader) : Except Stop ((Block ⊕ Block) × TokenReader) := do
  if ← r.atMark .rBrace then return (.inr body, r)
  else if ← r.atEnd then
    let finish ← r.peekSpan
    .error (.fault (SyntaxFault.unterminatedBlock opened finish).diagnostic)
  else
    let (s, r) ← statement r
    return (.inl (body ++ [s]), ← r.skipSeparators)

mutual

/-- A block in braces. -/
def block (depth : Nat) (r : TokenReader) : Except Stop (Block × TokenReader) :=
  match depth with
  | 0 => .error (.breach .tooDeep)
  | depth + 1 => do
    let (opening, r) ← (← r.skipNewlines).expectMark .lBrace
    let (body, r) ← (← r.skipSeparators).loop [] (blockTurn (statement depth) opening.span)
    let (_, r) ← r.expectMark .rBrace
    return (body, r)

/-- A statement inside a block. -/
def statement (depth : Nat) (r : TokenReader) : Except Stop (Stmt × TokenReader) :=
  match depth with
  | 0 => .error (.breach .tooDeep)
  | depth + 1 => do
    let start ← r.peekSpan
    if ← r.atWord .letWord then letDecl depth r
    else if ← r.atWord .returnWord then
      let r ← r.advance
      if ← r.atStatementEnd then return (.returnStmt (← r.spanSince start) none, r)
      else
        let (value, r) ← binary depth 0 r
        return (.returnStmt (← r.spanSince start) (some value), r)
    else if ← r.atWord .ifWord then conditional depth r
    else if ← r.atWord .whileWord then
      let (cond, r) ← binary depth 0 (← r.advance)
      let (body, r) ← block depth r
      return (.whileStmt (← r.spanSince start) cond body, r)
    else if ← r.atName breakName then return (.breakStmt start, ← r.advance)
    else if ← r.atName continueName then return (.continueStmt start, ← r.advance)
    else
      let (value, r) ← binary depth 0 r
      return (.exprStmt value.span value, r)

/-- An `if` with its block and, if the word `else` follows, the other block; after `else` another
`if` may stand in place of a block. -/
def conditional (depth : Nat) (r : TokenReader) : Except Stop (Stmt × TokenReader) :=
  match depth with
  | 0 => .error (.breach .tooDeep)
  | depth + 1 => do
    let (start, r) ← r.expectWord .ifWord
    let (cond, r) ← binary depth 0 r
    let (body, r) ← block depth r
    let index ← r.passNewlines r.tokens.size r.pos
    let t ← r.look index
    if t.isKeyword .elseWord then
      let r ← r.moveTo (index + 1)
      if ← r.atWord .ifWord then
        let (other, r) ← conditional depth r
        return (.ifElseStmt (← r.spanSince start.span) cond body [other], r)
      else
        let (other, r) ← block depth r
        return (.ifElseStmt (← r.spanSince start.span) cond body other, r)
    else return (.ifStmt (← r.spanSince start.span) cond body, r)

end

/-- A definition of a function. -/
def functionDef (depth : Nat) (r : TokenReader) : Except Stop (Stmt × TokenReader) := do
  let (start, r) ← r.expectWord .fnWord
  let (name, r) ← r.expectName .functionName
  let (_, r) ← r.expectMark .lParen
  let (params, r) ← r.list parameter
  let (_, r) ← r.expectMark .rParen
  let (body, r) ← block depth r
  return (.fnStmt (← r.spanSince start.span) name.text params body, r)

/-! ## Modules -/

/-- One item of a module, or one token that is skipped. -/
def itemTurn (depth : Nat) (body : Block) (r : TokenReader) :
    Except Stop ((Block ⊕ Block) × TokenReader) := do
  if ← r.atEnd then return (.inr body, r)
  else if ← r.atWord .letWord then
    let (s, r) ← letDecl depth r
    return (.inl (body ++ [s]), ← r.skipSeparators)
  else if ← r.atWord .fnWord then
    let (s, r) ← functionDef depth r
    return (.inl (body ++ [s]), ← r.skipSeparators)
  else return (.inl body, ← (← r.advance).skipSeparators)

/-- The module that some tokens stand for.  Calls may be nested three times as deeply as there are
tokens. -/
def parse (tokens : List Token) : Except Stop Module := do
  let r := ofTokens tokens
  let (body, r) ← (← r.skipSeparators).loop [] (itemTurn (3 * r.tokens.size))
  return ⟨body, r.nextId⟩

end TokenReader

end Scriptlet
