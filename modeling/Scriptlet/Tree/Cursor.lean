import Scriptlet.Source.Diagnostic
import Scriptlet.Token.Basic

/-!
# Reading a list of tokens

A cursor stands between the token that was read last and those still ahead.  The end of the input is
ahead of everything and is never passed, so there is always a token to look at.
-/

namespace Scriptlet

/-- What a parser looks for at a place. -/
inductive Expectation where
  | mark (o : Operator)
  | word (k : Keyword)
  | variableName
  | functionName
  | parameterName
  | expression
  deriving Repr, DecidableEq

/-- What was looked for, as messages name it. -/
def Expectation.label : Expectation → String
  | mark o => "\x27" ++ o.spelling ++ "\x27"
  | word k => "\x27" ++ k.spelling ++ "\x27"
  | variableName => "variable name"
  | functionName => "function name"
  | parameterName => "parameter name"
  | expression => "expression"

/-- Why a list of tokens is no module. -/
inductive SyntaxFault where
  /-- Another token stands where something was looked for. -/
  | expected (what : Expectation) (found : Token)
  /-- The input ends inside a block. -/
  | unterminatedBlock (opened finish : Span)
  /-- The text of a number token is no number. -/
  | invalidNumber (token : Token)
  /-- The nesting is deeper than the parser was told to expect. -/
  | tooDeep
  deriving Repr, DecidableEq

/-- The diagnostic of a fault. -/
def SyntaxFault.diagnostic : SyntaxFault → Diagnostic
  | expected what found =>
    { stage := .syntactic
      message := "Expected " ++ what.label ++ ", got " ++ found.shown
      span := found.span }
  | unterminatedBlock opened finish =>
    { stage := .syntactic
      message := "Unterminated block opened at " ++ opened.position
      span := finish
      notes := ["end of input reached before the matching \x27\x7d\x27"] }
  | invalidNumber token =>
    { stage := .syntactic
      message := "Invalid number literal \x27" ++ token.text ++ "\x27"
      span := token.span }
  | tooDeep =>
    { stage := .syntactic
      message := "Nesting too deep"
      span := .zero }

/-- A place in a list of tokens. -/
structure Cursor where
  /-- The span of the token read last. -/
  last : Span
  /-- The tokens still to be read, without the end of the input. -/
  ahead : List Token
  /-- The span of the end of the input. -/
  finish : Span
  /-- The number that the next use of a name gets.  It has no bound: a counter of 32 bits gives the
  same numbers as long as there are fewer than 2^32 uses. -/
  nextId : Nat
  deriving Repr, DecidableEq

namespace Cursor

/-- The cursor at the first of some tokens.  Comments are left out, and nothing is read past the
first end of the input; if there is none, the input ends behind the last token. -/
def ofTokens (tokens : List Token) : Cursor :=
  let tokens := tokens.filter fun t => t.kind != .comment
  let finish := match tokens.find? fun t => t.kind == .endOfInput with
    | some t => t.span
    | none => (tokens.getLast?.map fun t => t.span.atStop).getD .zero
  { last := .zero
    ahead := tokens.takeWhile fun t => t.kind != .endOfInput
    finish := finish
    nextId := 0 }

/-- The token to be read next. -/
def peek (c : Cursor) : Token := c.ahead.head?.getD (Token.endAt c.finish)

/-- The cursor behind the token to be read next; the end of the input is not passed. -/
def advance (c : Cursor) : Cursor :=
  match c.ahead with
  | [] => c
  | t :: rest => { c with last := t.span, ahead := rest }

/-- The cursor behind the tokens that satisfy a condition. -/
def skipWhile (p : Token → Bool) (c : Cursor) : Cursor :=
  { c with
    last := ((c.ahead.takeWhile p).getLast?.map Token.span).getD c.last
    ahead := c.ahead.dropWhile p }

/-- Skip line ends. -/
def skipNewlines (c : Cursor) : Cursor := c.skipWhile fun t => t.kind == .newline

/-- Skip line ends and semicolons. -/
def skipSeparators (c : Cursor) : Cursor :=
  c.skipWhile fun t => t.kind == .newline || t.isOperator .semicolon

/-- Whether nothing is left but the end of the input. -/
def atEnd (c : Cursor) : Bool := c.ahead.isEmpty

/-- Whether the next token is a given mark. -/
def atMark (c : Cursor) (o : Operator) : Bool := c.peek.isOperator o

/-- Whether the next token is a given reserved word. -/
def atWord (c : Cursor) (k : Keyword) : Bool := c.peek.isKeyword k

/-- The stretch from the start of a span to the token read last. -/
def spanSince (c : Cursor) (start : Span) : Span := start.merge c.last

/-- The cursor behind a number that has been given out. -/
def takeId (c : Cursor) : Cursor := { c with nextId := c.nextId + 1 }

/-- Read the next token if it satisfies a condition. -/
def expect (c : Cursor) (p : Token → Bool) (what : Expectation) :
    Except SyntaxFault (Token × Cursor) :=
  if p c.peek then .ok (c.peek, c.advance) else .error (.expected what c.peek)

/-- Read a mark. -/
def expectMark (c : Cursor) (o : Operator) : Except SyntaxFault (Token × Cursor) :=
  c.expect (·.isOperator o) (.mark o)

/-- Read a reserved word. -/
def expectWord (c : Cursor) (k : Keyword) : Except SyntaxFault (Token × Cursor) :=
  c.expect (·.isKeyword k) (.word k)

/-- Read a name. -/
def expectName (c : Cursor) (what : Expectation) : Except SyntaxFault (Token × Cursor) :=
  c.expect (fun t => t.kind == .identifier) what

/-- If the next token that is no line end is the word `else`, the cursor behind it. -/
def passElse? (c : Cursor) : Option Cursor :=
  let c := c.skipNewlines
  if c.atWord .elseWord then some c.advance else none

theorem length_ahead_advance (c : Cursor) : c.advance.ahead.length = c.ahead.length - 1 := by
  rcases hc : c.ahead with _ | ⟨t, rest⟩ <;> simp [advance, hc]

end Cursor

end Scriptlet
