import Scriptlet.Compile
import Scriptlet.Proofs.Chain
import Scriptlet.Proofs.Reading

/-!
# Spans decide nothing

Spans are carried from tokens to trees, symbols and faults, and no stage looks at them.  So a stage
and the erasure of spans can change places: parsing tokens without spans gives the tree without
spans (`Parse.items_unspanned`), looking up the names of such a tree finds the same symbols and the
same faults without spans (`Module.resolve_unspanned`), and its program is the same
(`Module.generate_unspanned`).
-/

namespace Scriptlet

/-! ## Tokens and cursors -/

/-- A token without its span. -/
def Token.unspanned (t : Token) : Token := { t with span := .zero }

namespace Cursor

/-- A cursor without its spans. -/
def unspanned (c : Cursor) : Cursor where
  last := .zero
  ahead := c.ahead.map Token.unspanned
  finish := .zero
  nextId := c.nextId

/-- The next token is the same but for its span, also behind the last token, where one stands for
the end of the input. -/
theorem peek_unspanned (c : Cursor) : c.unspanned.peek = c.peek.unspanned := by
  rw [peek, peek, unspanned]
  cases c.ahead <;> rfl

/-- Moving on drops the next token with or without spans. -/
theorem advance_unspanned (c : Cursor) : c.unspanned.advance = c.advance.unspanned := by
  obtain ⟨last, ahead, finish, nextId⟩ := c
  cases ahead <;> rfl

/-- Tokens are skipped by what they are and not by where they stand. -/
theorem skipWhile_unspanned {p : Token → Bool} (hp : ∀ t : Token, p t.unspanned = p t)
    (c : Cursor) : c.unspanned.skipWhile p = (c.skipWhile p).unspanned := by
  obtain ⟨last, ahead, finish, nextId⟩ := c
  have hcomp : p ∘ Token.unspanned = p := funext hp
  have hlast : ((((ahead.map Token.unspanned).takeWhile p).getLast?.map Token.span).getD .zero) =
      Span.zero := by
    rw [List.takeWhile_map, List.getLast?_map, Option.map_map]
    cases (ahead.takeWhile (p ∘ Token.unspanned)).getLast? <;> rfl
  simp only [skipWhile, unspanned, hlast, List.dropWhile_map, hcomp]

/-- Line ends are known by their kind, so the same ones are skipped without spans. -/
theorem skipNewlines_unspanned (c : Cursor) :
    c.unspanned.skipNewlines = c.skipNewlines.unspanned :=
  skipWhile_unspanned (fun _ => rfl) c

/-- Separators are known by their kind, so the same ones are skipped without spans. -/
theorem skipSeparators_unspanned (c : Cursor) :
    c.unspanned.skipSeparators = c.skipSeparators.unspanned :=
  skipWhile_unspanned (fun _ => rfl) c

theorem takeId_unspanned (c : Cursor) : c.unspanned.takeId = c.takeId.unspanned := rfl

/-- Erasing spans drops no token, so the end comes at the same place. -/
theorem atEnd_unspanned (c : Cursor) : c.unspanned.atEnd = c.atEnd := List.isEmpty_map

/-- A mark is known by its kind. -/
theorem atMark_unspanned (c : Cursor) (mark : Operator) :
    c.unspanned.atMark mark = c.atMark mark := by
  rw [atMark, peek_unspanned]
  rfl

/-- A reserved word is known by its kind. -/
theorem atWord_unspanned (c : Cursor) (word : Keyword) :
    c.unspanned.atWord word = c.atWord word := by
  rw [atWord, peek_unspanned]
  rfl

/-- An `else` behind line ends is found without spans if and only if it is found with them. -/
theorem passElse?_unspanned (c : Cursor) :
    c.unspanned.passElse? = c.passElse?.map unspanned := by
  simp only [passElse?, skipNewlines_unspanned, atWord_unspanned, advance_unspanned]
  split <;> rfl

end Cursor

/-- A fault without its spans. -/
def SyntaxFault.unspanned : SyntaxFault → SyntaxFault
  | expected what found => expected what found.unspanned
  | unterminatedBlock _ _ => unterminatedBlock .zero .zero
  | invalidNumber token => invalidNumber token.unspanned
  | tooDeep => tooDeep

/-! ## Parsing -/

namespace Parse

/-- What is read without its spans. -/
def unspan {α : Type} (f : α → α) :
    Except SyntaxFault (α × Cursor) → Except SyntaxFault (α × Cursor)
  | .ok (a, c) => .ok (f a, c.unspanned)
  | .error fault => .error fault.unspanned

/-- Two steps one after the other, each of which can change places with the erasure. -/
theorem unspan_bind {α β : Type} {f : α → α} {g : β → β}
    {x x' : Except SyntaxFault (α × Cursor)}
    {k k' : α × Cursor → Except SyntaxFault (β × Cursor)} (hx : x' = unspan f x)
    (hk : ∀ a c, k' (f a, c.unspanned) = unspan g (k (a, c))) :
    x' >>= k' = unspan g (x >>= k) := by
  subst hx
  cases x with
  | error fault => rfl
  | ok read => exact hk read.1 read.2

/-- What is expected by its kind is met or missed alike, and a fault differs only in its span. -/
theorem expect_unspanned {p : Token → Bool} (hp : ∀ t : Token, p t.unspanned = p t) (c : Cursor)
    (what : Expectation) :
    c.unspanned.expect p what = unspan Token.unspanned (c.expect p what) := by
  simp only [Cursor.expect, Cursor.peek_unspanned, Cursor.advance_unspanned, hp]
  split <;> rfl

/-- A mark that is expected is met or missed alike. -/
theorem expectMark_unspanned (c : Cursor) (mark : Operator) :
    c.unspanned.expectMark mark = unspan Token.unspanned (c.expectMark mark) :=
  expect_unspanned (fun _ => rfl) c _

/-- A reserved word that is expected is met or missed alike. -/
theorem expectWord_unspanned (c : Cursor) (word : Keyword) :
    c.unspanned.expectWord word = unspan Token.unspanned (c.expectWord word) :=
  expect_unspanned (fun _ => rfl) c _

/-- A name that is expected is met or missed alike. -/
theorem expectName_unspanned (c : Cursor) (what : Expectation) :
    c.unspanned.expectName what = unspan Token.unspanned (c.expectName what) :=
  expect_unspanned (fun _ => rfl) c _

/-- The operator ahead and its precedence come from the kind of a token. -/
theorem operatorAhead?_unspanned (minPrec : Nat) (c : Cursor) :
    operatorAhead? minPrec c.unspanned = operatorAhead? minPrec c := by
  rw [operatorAhead?, Cursor.peek_unspanned]
  rfl

/-- Whether a statement ends here is seen from the kind of the next token. -/
theorem atStatementEnd_unspanned (c : Cursor) :
    atStatementEnd c.unspanned = atStatementEnd c := by
  rw [atStatementEnd, Cursor.atEnd_unspanned, Cursor.peek_unspanned, Cursor.atMark_unspanned,
    Cursor.atMark_unspanned]
  rfl

/-- An expression without spans has the empty span. -/
theorem span_unspanned (e : Expr) : e.unspanned.span = .zero := by
  cases e <;> rw [Expr.unspanned] <;> rfl

/-- Parentheses change the span of what is inside, so without spans they leave no trace. -/
theorem withSpan_zero_unspanned (e : Expr) : e.unspanned.withSpan .zero = e.unspanned := by
  cases e <;> rw [Expr.unspanned] <;> rfl

mutual

/-- Reading an expression does not depend on spans. -/
theorem binary_unspanned : ∀ (depth minPrec : Nat) (c : Cursor),
    binary depth minPrec c.unspanned = unspan Expr.unspanned (binary depth minPrec c)
  | 0, minPrec, c => by
    rw [binary, binary]
    rfl
  | depth + 1, minPrec, c => by
    rw [binary, binary]
    exact unspan_bind (primary_unspanned depth c) fun left c =>
      operators_unspanned depth minPrec left c

/-- Reading the operators behind an operand does not depend on spans, with the operand read so far
taken without its own. -/
theorem operators_unspanned : ∀ (depth minPrec : Nat) (left : Expr) (c : Cursor),
    operators depth minPrec left.unspanned c.unspanned =
      unspan Expr.unspanned (operators depth minPrec left c)
  | 0, minPrec, left, c => by
    rw [operators, operators]
    rfl
  | depth + 1, minPrec, left, c => by
    rw [operators, operators, operatorAhead?_unspanned]
    cases operatorAhead? minPrec c with
    | none => rfl
    | some ahead =>
      obtain ⟨op, prec⟩ := ahead
      dsimp only
      rw [Cursor.advance_unspanned]
      refine unspan_bind (binary_unspanned depth (prec + 1) c.advance) fun right c => ?_
      have hstep := operators_unspanned depth minPrec
        (.binary (left.span.merge right.span) op left right) c
      rw [Expr.unspanned] at hstep
      dsimp only
      rw [span_unspanned, span_unspanned]
      exact hstep

/-- Reading an operand does not depend on spans. -/
theorem primary_unspanned : ∀ (depth : Nat) (c : Cursor),
    primary depth c.unspanned = unspan Expr.unspanned (primary depth c)
  | 0, c => by
    rw [primary, primary]
    rfl
  | depth + 1, c => by
    rw [primary, primary, Cursor.peek_unspanned]
    -- The kind of the token decides, so its span can be anything.
    generalize c.peek = t
    obtain ⟨kind, text, span⟩ := t
    cases kind with
    | number =>
      dsimp only [Token.unspanned]
      cases Literal.ofNumber? text with
      | none => rfl
      | some value =>
        dsimp only
        rw [Cursor.advance_unspanned, unspan, Expr.unspanned]
    | string =>
      dsimp only [Token.unspanned]
      rw [Cursor.advance_unspanned, unspan, Expr.unspanned]
    | identifier =>
      dsimp only [Token.unspanned]
      rw [Cursor.advance_unspanned, Cursor.atMark_unspanned]
      split
      · rw [Cursor.takeId_unspanned, Cursor.advance_unspanned, Cursor.skipNewlines_unspanned]
        refine unspan_bind (arguments_unspanned depth _) fun args c' => ?_
        refine unspan_bind (expectMark_unspanned c' .rParen) fun t c' => ?_
        show _ = Except.ok _
        rw [Expr.unspanned]
        rfl
      · rw [unspan, Expr.unspanned]
        rfl
    | operator mark =>
      dsimp only [Token.unspanned]
      by_cases hmark : mark = .lParen
      · subst hmark
        dsimp only
        rw [Cursor.advance_unspanned, Cursor.skipNewlines_unspanned]
        refine unspan_bind (binary_unspanned depth 0 _) fun inner c' => ?_
        dsimp only
        rw [Cursor.skipNewlines_unspanned]
        refine unspan_bind (expectMark_unspanned _ .rParen) fun t c' => ?_
        show Except.ok (inner.unspanned.withSpan .zero, c'.unspanned) = Except.ok _
        rw [withSpan_zero_unspanned, unspanned_withSpan]
      · cases mark with
        | lParen => exact absurd rfl hmark
        | _ => rfl
    | keyword word =>
      dsimp only [Token.unspanned]
      cases word with
      | trueWord | falseWord =>
        dsimp only
        rw [Cursor.advance_unspanned, unspan, Expr.unspanned]
      | _ => rfl
    | newline | comment | endOfInput => rfl

/-- Reading the arguments of a call does not depend on spans. -/
theorem arguments_unspanned : ∀ (depth : Nat) (c : Cursor),
    arguments depth c.unspanned = unspan Expr.unspannedAll (arguments depth c)
  | 0, c => by
    rw [arguments, arguments]
    rfl
  | depth + 1, c => by
    rw [arguments, arguments, Cursor.atMark_unspanned]
    split
    · rw [unspan, Expr.unspannedAll]
    · refine unspan_bind (binary_unspanned depth 0 c) fun arg c => ?_
      dsimp only
      rw [Cursor.skipNewlines_unspanned, Cursor.atMark_unspanned]
      split
      · rw [Cursor.advance_unspanned, Cursor.skipNewlines_unspanned]
        refine unspan_bind (arguments_unspanned depth _) fun args c => ?_
        show _ = Except.ok _
        rw [Expr.unspannedAll]
        rfl
      · show _ = Except.ok _
        rw [Expr.unspannedAll, Expr.unspannedAll]
        rfl

end

/-- Reading the parameters of a function does not depend on spans, and they have none. -/
theorem parameters_unspanned : ∀ (depth : Nat) (c : Cursor),
    parameters depth c.unspanned = unspan id (parameters depth c)
  | 0, c => by
    rw [parameters, parameters]
    rfl
  | depth + 1, c => by
    rw [parameters, parameters, Cursor.atMark_unspanned]
    split
    · rfl
    · refine unspan_bind (expectName_unspanned c .parameterName) fun param c => ?_
      dsimp only
      rw [Cursor.skipNewlines_unspanned, Cursor.atMark_unspanned]
      split
      · rw [Cursor.advance_unspanned, Cursor.skipNewlines_unspanned]
        exact unspan_bind (parameters_unspanned depth _) fun params c => rfl
      · rfl

/-- Reading a declaration does not depend on spans. -/
theorem letDecl_unspanned (depth : Nat) (c : Cursor) :
    letDecl depth c.unspanned = unspan Stmt.unspanned (letDecl depth c) := by
  rw [letDecl, letDecl]
  refine unspan_bind (expectWord_unspanned c .letWord) fun start c => ?_
  refine unspan_bind (expectName_unspanned c .variableName) fun name c => ?_
  refine unspan_bind (expectMark_unspanned c .eq) fun mark c => ?_
  refine unspan_bind (binary_unspanned depth 0 c) fun value c => ?_
  show _ = Except.ok _
  rw [Stmt.unspanned]
  rfl

mutual

/-- Reading a block does not depend on spans. -/
theorem block_unspanned : ∀ (depth : Nat) (c : Cursor),
    block depth c.unspanned = unspan Stmt.unspannedAll (block depth c)
  | 0, c => by
    rw [block, block]
    rfl
  | depth + 1, c => by
    rw [block, block, Cursor.skipNewlines_unspanned]
    refine unspan_bind (expectMark_unspanned _ .lBrace) fun opening c => ?_
    dsimp only
    rw [Cursor.skipSeparators_unspanned]
    refine unspan_bind (statements_unspanned depth opening.span _) fun body c => ?_
    dsimp only
    rw [Cursor.advance_unspanned]
    rfl

/-- Reading the statements of a block does not depend on spans.  The span of the opening brace is
kept for the fault of a block that is never closed, so it is erased as well. -/
theorem statements_unspanned : ∀ (depth : Nat) (opened : Span) (c : Cursor),
    statements depth .zero c.unspanned = unspan Stmt.unspannedAll (statements depth opened c)
  | 0, opened, c => by
    rw [statements, statements]
    rfl
  | depth + 1, opened, c => by
    rw [statements, statements, Cursor.atMark_unspanned, Cursor.atEnd_unspanned,
      Cursor.peek_unspanned]
    split
    · rw [unspan, Stmt.unspannedAll]
    · split
      · rfl
      · refine unspan_bind (statement_unspanned depth c) fun first c => ?_
        dsimp only
        rw [Cursor.skipSeparators_unspanned]
        refine unspan_bind (statements_unspanned depth opened _) fun rest c => ?_
        show _ = Except.ok _
        rw [Stmt.unspannedAll]
        rfl

/-- Reading a statement does not depend on spans. -/
theorem statement_unspanned : ∀ (depth : Nat) (c : Cursor),
    statement depth c.unspanned = unspan Stmt.unspanned (statement depth c)
  | 0, c => by
    rw [statement, statement]
    rfl
  | depth + 1, c => by
    rw [statement, statement]
    dsimp only
    simp only [Cursor.atWord_unspanned, Cursor.peek_unspanned, Cursor.advance_unspanned,
      atStatementEnd_unspanned]
    split
    · exact letDecl_unspanned depth c
    split
    · split
      · rw [unspan, Stmt.unspanned]
        rfl
      · refine unspan_bind (binary_unspanned depth 0 c.advance) fun value c => ?_
        show _ = Except.ok _
        rw [Stmt.unspanned]
        rfl
    split
    · exact conditional_unspanned depth c
    split
    · refine unspan_bind (binary_unspanned depth 0 c.advance) fun cond c => ?_
      refine unspan_bind (block_unspanned depth c) fun body c => ?_
      show _ = Except.ok _
      rw [Stmt.unspanned]
      rfl
    rw [show c.peek.unspanned.isName breakName = c.peek.isName breakName from rfl,
      show c.peek.unspanned.isName continueName = c.peek.isName continueName from rfl]
    split
    · rw [unspan, Stmt.unspanned]
      rfl
    split
    · rw [unspan, Stmt.unspanned]
      rfl
    · refine unspan_bind (binary_unspanned depth 0 c) fun value c => ?_
      show Except.ok (Stmt.exprStmt value.unspanned.span value.unspanned, c.unspanned) = .ok _
      rw [span_unspanned, Stmt.unspanned]

/-- Reading a conditional does not depend on spans. -/
theorem conditional_unspanned : ∀ (depth : Nat) (c : Cursor),
    conditional depth c.unspanned = unspan Stmt.unspanned (conditional depth c)
  | 0, c => by
    rw [conditional, conditional]
    rfl
  | depth + 1, c => by
    rw [conditional, conditional]
    refine unspan_bind (expectWord_unspanned c .ifWord) fun start c => ?_
    refine unspan_bind (binary_unspanned depth 0 c) fun cond c => ?_
    refine unspan_bind (block_unspanned depth c) fun body c => ?_
    dsimp only
    rw [Cursor.passElse?_unspanned]
    cases c.passElse? with
    | none =>
      show _ = Except.ok _
      rw [Stmt.unspanned]
      rfl
    | some c =>
      dsimp only [Option.map]
      rw [Cursor.atWord_unspanned]
      split
      · refine unspan_bind (conditional_unspanned depth c) fun other c => ?_
        show _ = Except.ok _
        rw [Stmt.unspanned, Stmt.unspannedAll, Stmt.unspannedAll]
        rfl
      · refine unspan_bind (block_unspanned depth c) fun other c => ?_
        show _ = Except.ok _
        rw [Stmt.unspanned]
        rfl

end

/-- Reading a function does not depend on spans. -/
theorem functionDef_unspanned (depth : Nat) (c : Cursor) :
    functionDef depth c.unspanned = unspan Stmt.unspanned (functionDef depth c) := by
  rw [functionDef, functionDef]
  refine unspan_bind (expectWord_unspanned c .fnWord) fun start c => ?_
  refine unspan_bind (expectName_unspanned c .functionName) fun name c => ?_
  refine unspan_bind (expectMark_unspanned c .lParen) fun opening c => ?_
  dsimp only
  rw [Cursor.skipNewlines_unspanned]
  refine unspan_bind (parameters_unspanned depth _) fun params c => ?_
  refine unspan_bind (expectMark_unspanned c .rParen) fun closing c => ?_
  refine unspan_bind (block_unspanned depth c) fun body c => ?_
  show _ = Except.ok _
  rw [Stmt.unspanned]
  rfl

/-- Reading the items of a module does not depend on spans. -/
theorem items_unspanned : ∀ (depth : Nat) (c : Cursor),
    items depth c.unspanned = unspan Stmt.unspannedAll (items depth c)
  | 0, c => by
    rw [items, items]
    rfl
  | depth + 1, c => by
    rw [items, items]
    dsimp only
    simp only [Cursor.skipSeparators_unspanned, Cursor.atEnd_unspanned, Cursor.atWord_unspanned,
      Cursor.advance_unspanned]
    split
    · rw [unspan, Stmt.unspannedAll]
    split
    · refine unspan_bind (letDecl_unspanned depth _) fun first c => ?_
      refine unspan_bind (items_unspanned depth c) fun rest c => ?_
      show _ = Except.ok _
      rw [Stmt.unspannedAll]
      rfl
    split
    · refine unspan_bind (functionDef_unspanned depth _) fun first c => ?_
      refine unspan_bind (items_unspanned depth c) fun rest c => ?_
      show _ = Except.ok _
      rw [Stmt.unspannedAll]
      rfl
    · exact items_unspanned depth _

end Parse

/-- The kinds and texts of tokens in turn, without comments. -/
def wording (tokens : List Token) : List (TokenKind × String) :=
  (tokens.filter fun t => t.kind != .comment).map fun t => (t.kind, t.text)

/-- Where reading starts is told by the wording alone, up to spans. -/
theorem Cursor.unspanned_ofTokens {ts us : List Token} (h : wording ts = wording us) :
    (ofTokens ts).unspanned = (ofTokens us).unspanned := by
  have hwords : ∀ vs : List Token, (ofTokens vs).unspanned =
      ⟨.zero,
        ((wording vs).map fun w => ⟨w.1, w.2, .zero⟩).takeWhile fun t => t.kind != .endOfInput,
        .zero, 0⟩ := by
    intro vs
    rw [wording, List.map_map, List.takeWhile_map]
    rfl
  rw [hwords, hwords, h]

namespace Module

/-- What parsing gives, without spans. -/
def unspan : Except SyntaxFault Module → Except SyntaxFault Module
  | .ok m => .ok m.unspanned
  | .error fault => .error fault.unspanned

/-- What parsing gives, up to spans, is told by the wording of the tokens. -/
theorem unspan_parse {ts us : List Token} (h : wording ts = wording us) :
    unspan (parse ts) = unspan (parse us) := by
  have hparse : ∀ vs : List Token, unspan (parse vs) =
      (Parse.items (Parse.depthFor (Cursor.ofTokens vs).unspanned)
        (Cursor.ofTokens vs).unspanned).map fun read => ⟨read.1, read.2.nextId⟩ := by
    intro vs
    have hdepth : Parse.depthFor (Cursor.ofTokens vs).unspanned =
        Parse.depthFor (Cursor.ofTokens vs) := by
      rw [Parse.depthFor, Parse.depthFor, Cursor.unspanned, List.length_map]
    rw [parse, hdepth, Parse.items_unspanned]
    dsimp only
    cases Parse.items (Parse.depthFor (.ofTokens vs)) (.ofTokens vs) <;> rfl
  rw [hparse, hparse, Cursor.unspanned_ofTokens h]

end Module

/-! ## Looking up names -/

/-- A symbol without its span. -/
def Symbol.unspanned (s : Symbol) : Symbol := { s with span := .zero }

/-- A fault without its span. -/
def LocatedScopeFault.unspanned (f : LocatedScopeFault) : LocatedScopeFault :=
  { f with span := .zero }

namespace SymbolTable

/-- A symbol table without the spans of its symbols. -/
def unspanned (t : SymbolTable) : SymbolTable :=
  { t with symbols := t.symbols.map Symbol.unspanned }

/-- A symbol is defined by its name, so the scopes change in the same way without spans. -/
theorem define_unspanned (t : SymbolTable) (name : String) (kind : SymbolKind) (span : Span) :
    t.unspanned.define name kind .zero = (t.define name kind span).unspanned := by
  simp only [define, unspanned, Array.map_push, Array.size_map]
  rfl

/-- Leaving a scope looks at no symbol. -/
theorem exit_unspanned (t : SymbolTable) : t.unspanned.exit = t.exit.unspanned := by
  rw [exit, exit, show t.unspanned.currentScope? = t.currentScope? from rfl]
  cases t.currentScope?.bind Scope.parent <;> rfl

/-- The scopes around a scope are found by their numbers. -/
theorem chainFrom_unspanned (t : SymbolTable) (index : Nat) :
    t.unspanned.chainFrom index = t.chainFrom index := by
  induction index using Nat.strongRecOn with
  | ind index ih =>
    rw [chainFrom, chainFrom, show t.unspanned.scopes = t.scopes from rfl]
    cases t.scopes[index]? with
    | none => rfl
    | some scope =>
      dsimp only
      cases scope.parent with
      | none => rfl
      | some parent =>
        dsimp only
        split
        · next hlt => rw [ih parent hlt]
        · rfl

/-- A lookup compares names, so it finds the symbol with the same number. -/
theorem lookup_unspanned (t : SymbolTable) (name : String) :
    t.unspanned.lookup name = t.lookup name := by
  rw [lookup_eq, lookup_eq, chain, chain, chainFrom_unspanned]
  rfl

end SymbolTable

/-- What is found about the names of a module, without spans. -/
def Resolution.unspanned (r : Resolution) : Resolution := { r with table := r.table.unspanned }

namespace Walk

/-- A walk without spans. -/
def unspanned (w : Walk) : Walk := ⟨w.found.unspanned, w.faults.map LocatedScopeFault.unspanned⟩

/-- A fault is added at the same place, but for its span. -/
theorem report_unspanned (w : Walk) (fault : ScopeFault) (span : Span) :
    w.unspanned.report fault .zero = (w.report fault span).unspanned := by
  simp only [report, unspanned, List.map_append]
  rfl

/-- Whether a fault is reported is decided without spans. -/
theorem reportIf_unspanned (w : Walk) (condition : Bool) (fault : ScopeFault) (span : Span) :
    w.unspanned.reportIf condition fault .zero = (w.reportIf condition fault span).unspanned := by
  cases condition with
  | false => rfl
  | true => exact w.report_unspanned fault span

/-- A declaration is refused for its name, and not for where it stands. -/
theorem declare_unspanned (w : Walk) (name : String) (kind : SymbolKind) (span : Span)
    (fault : ScopeFault) :
    w.unspanned.declare name kind .zero fault = (w.declare name kind span fault).unspanned := by
  rw [declare, declare,
    show w.unspanned.table.lookupLocal name = w.table.lookupLocal name from rfl]
  cases w.table.lookupLocal name with
  | some _ => exact w.report_unspanned fault span
  | none =>
    show w.unspanned.withTable (w.table.unspanned.define name kind .zero) = _
    rw [SymbolTable.define_unspanned w.table name kind span]
    rfl

/-- Entering a scope looks at no symbol. -/
theorem enter_unspanned (w : Walk) (kind : ScopeKind) :
    w.unspanned.enter kind = (w.enter kind).unspanned := rfl

/-- Leaving a scope changes no fault. -/
theorem exit_unspanned (w : Walk) : w.unspanned.exit = w.exit.unspanned := by
  show w.unspanned.withTable w.table.unspanned.exit = _
  rw [SymbolTable.exit_unspanned]
  rfl

/-- The use of a variable is bound to the same symbol, or gives the same fault. -/
theorem useVariable_unspanned (w : Walk) (node : Nat) (name : String) (span : Span) :
    w.unspanned.useVariable node name .zero = (w.useVariable node name span).unspanned := by
  rw [useVariable, useVariable, show w.unspanned.table = w.table.unspanned from rfl,
    SymbolTable.lookup_unspanned]
  cases w.table.lookup name with
  | some symbol => rfl
  | none => exact w.report_unspanned _ span

/-- A call is bound to the same symbol, or gives the same faults for its name and its arguments. -/
theorem useFunction_unspanned (w : Walk) (node : Nat) (name : String) (args : Nat) (span : Span) :
    w.unspanned.useFunction node name args .zero =
      (w.useFunction node name args span).unspanned := by
  rw [useFunction, useFunction, show w.unspanned.table = w.table.unspanned from rfl,
    SymbolTable.lookup_unspanned]
  cases w.table.lookup name with
  | none => exact w.report_unspanned _ span
  | some symbol =>
    have hkind : (w.table.unspanned.symbols[symbol]?).map Symbol.kind =
        (w.table.symbols[symbol]?).map Symbol.kind := by
      simp only [SymbolTable.unspanned, Array.getElem?_map, Option.map_map]
      rfl
    dsimp only
    rw [hkind]
    split
    · split
      · rfl
      · exact w.report_unspanned _ span
    · rfl
    · exact w.report_unspanned _ span

/-- The parameters of a function are declared one after the other, each without a look at spans. -/
theorem parameters_unspanned (w : Walk) (function : String) (params : List String) (span : Span) :
    w.unspanned.parameters function params .zero =
      (w.parameters function params span).unspanned := by
  rw [parameters, parameters]
  induction params generalizing w with
  | nil => rfl
  | cons p params ih =>
    rw [List.foldl_cons, List.foldl_cons, w.declare_unspanned p .variable span, ih]

mutual

/-- Looking up the names of an expression does not depend on spans. -/
theorem expr_unspanned : ∀ (e : Expr) (w : Walk), w.unspanned.expr e.unspanned =
    (w.expr e).unspanned
  | .literal _ _, w => by
    rw [Expr.unspanned, expr, expr]
  | .name span id x, w => by
    rw [Expr.unspanned, expr, expr]
    exact w.useVariable_unspanned id x span
  | .binary _ _ left right, w => by
    rw [Expr.unspanned, expr, expr, expr_unspanned left, expr_unspanned right]
  | .not _ operand, w => by
    rw [Expr.unspanned, expr, expr, expr_unspanned operand]
  | .call span id f args, w => by
    rw [Expr.unspanned, expr, expr, exprs_unspanned args, length_unspannedAll args]
    exact (w.exprs args).useFunction_unspanned id f args.length span

/-- Looking up the names of some expressions does not depend on spans. -/
theorem exprs_unspanned : ∀ (es : List Expr) (w : Walk), w.unspanned.exprs (Expr.unspannedAll es) =
    (w.exprs es).unspanned
  | [], w => by
    rw [Expr.unspannedAll, exprs, exprs]
  | e :: rest, w => by
    rw [Expr.unspannedAll, exprs, exprs, expr_unspanned e, exprs_unspanned rest]

/-- A call has as many arguments without spans, which is what the check of a call looks at. -/
theorem length_unspannedAll : ∀ es : List Expr, (Expr.unspannedAll es).length = es.length
  | [] => by rw [Expr.unspannedAll]
  | e :: rest => by
    rw [Expr.unspannedAll, List.length_cons, length_unspannedAll rest, List.length_cons]

end

/-- The same for a value that may be missing. -/
theorem expr?_unspanned (e : Option Expr) (w : Walk) :
    w.unspanned.expr? (e.map Expr.unspanned) = (w.expr? e).unspanned := by
  cases e with
  | none => rfl
  | some e => exact expr_unspanned e w

mutual

/-- Looking up the names of a statement does not depend on spans. -/
theorem stmt_unspanned : ∀ (s : Stmt) (w : Walk) (around : Surroundings),
    w.unspanned.stmt around s.unspanned = (w.stmt around s).unspanned
  | .letStmt span name value, w, around => by
    rw [Stmt.unspanned, stmt, stmt, expr?_unspanned]
    exact (w.expr? value).declare_unspanned name .variable span _
  | .fnStmt span name params body, w, around => by
    rw [Stmt.unspanned, stmt, stmt,
      show w.unspanned.table.currentKind = w.table.currentKind from rfl,
      w.reportIf_unspanned _ _ span, declare_unspanned _ _ _ span, enter_unspanned,
      parameters_unspanned _ _ _ span, block_unspanned body, exit_unspanned]
  | .returnStmt span value, w, around => by
    rw [Stmt.unspanned, stmt, stmt, w.reportIf_unspanned _ _ span, expr?_unspanned]
  | .breakStmt span, w, around | .continueStmt span, w, around => by
    rw [Stmt.unspanned, stmt, stmt, w.reportIf_unspanned _ _ span]
  | .ifStmt _ cond body, w, around | .whileStmt _ cond body, w, around => by
    rw [Stmt.unspanned, stmt, stmt, expr_unspanned, enter_unspanned, block_unspanned body,
      exit_unspanned]
  | .ifElseStmt _ cond body other, w, around => by
    rw [Stmt.unspanned, stmt, stmt, expr_unspanned, enter_unspanned, block_unspanned body,
      exit_unspanned, enter_unspanned, block_unspanned other, exit_unspanned]
  | .exprStmt _ value, w, around => by
    rw [Stmt.unspanned, stmt, stmt, expr_unspanned]

/-- Looking up the names of a block does not depend on spans. -/
theorem block_unspanned : ∀ (ss : List Stmt) (w : Walk) (around : Surroundings),
    w.unspanned.block around (Stmt.unspannedAll ss) = (w.block around ss).unspanned
  | [], w, around => by
    rw [Stmt.unspannedAll, block, block]
  | s :: rest, w, around => by
    rw [Stmt.unspannedAll, block, block, stmt_unspanned s, block_unspanned rest]

end

end Walk

/-- Names are looked up in the same way without spans. -/
theorem Module.resolve_unspanned (m : Module) : m.unspanned.resolve =
    match m.resolve with
    | .ok r => .ok r.unspanned
    | .error faults => .error (faults.map LocatedScopeFault.unspanned) := by
  have hinitial : Walk.initial.unspanned = Walk.initial := by decide +kernel
  have hwalk : Walk.initial.block ⟨0, false⟩ m.unspanned.body =
      (Walk.initial.block ⟨0, false⟩ m.body).unspanned := by
    rw [← Walk.block_unspanned, hinitial]
    rfl
  simp only [resolve, hwalk, Walk.unspanned, List.isEmpty_map]
  split <;> rfl

/-! ## Programs -/

mutual

/-- The code of an expression is as long without spans. -/
theorem Expr.width_unspanned : ∀ e : Expr, e.unspanned.width = e.width
  | .literal _ _ | .name _ _ _ => by rw [unspanned, width, width]
  | .binary _ _ left right => by
    rw [unspanned, width, width, left.width_unspanned, right.width_unspanned]
  | .not _ operand => by rw [unspanned, width, width, operand.width_unspanned]
  | .call _ _ _ args => by rw [unspanned, width, width, Expr.widths_unspannedAll args]

/-- The code of some expressions is as long without spans. -/
theorem Expr.widths_unspannedAll : ∀ es : List Expr,
    Expr.widths (Expr.unspannedAll es) = Expr.widths es
  | [] => by rw [unspannedAll]
  | e :: rest => by
    rw [unspannedAll, widths, widths, e.width_unspanned, Expr.widths_unspannedAll rest]

end

/-- The same for a value that may be missing. -/
theorem Expr.width?_unspanned (e : Option Expr) :
    Expr.width? (e.map Expr.unspanned) = Expr.width? e := by
  cases e with
  | none => rfl
  | some e => exact e.width_unspanned

/-- Spans are erased statement by statement. -/
theorem Stmt.unspannedAll_eq_map (ss : List Stmt) :
    Stmt.unspannedAll ss = ss.map Stmt.unspanned := by
  induction ss with
  | nil => rw [unspannedAll, List.map_nil]
  | cons s rest ih => rw [unspannedAll, ih, List.map_cons]

/-- A block ends with a return by the kind of its last statement. -/
theorem endsWithReturn_unspanned (ss : List Stmt) :
    endsWithReturn (Stmt.unspannedAll ss) = endsWithReturn ss := by
  rw [endsWithReturn, endsWithReturn, Stmt.unspannedAll_eq_map, List.getLast?_map]
  cases ss.getLast? with
  | none => rfl
  | some s => cases s <;> rw [Option.map_some, Stmt.unspanned]

mutual

/-- The code of a statement is as long without spans, so jumps over it have the same targets. -/
theorem Stmt.width_unspanned : ∀ s : Stmt, s.unspanned.width = s.width
  | .letStmt _ _ none => by rw [unspanned, Option.map_none, width, width]
  | .letStmt _ _ (some value) => by
    rw [unspanned, Option.map_some, width, width, value.width_unspanned]
  | .fnStmt _ _ _ body => by
    rw [unspanned, width, width, Stmt.widths_unspannedAll body, endsWithReturn_unspanned]
  | .returnStmt _ value => by rw [unspanned, width, width, Expr.width?_unspanned]
  | .breakStmt _ | .continueStmt _ => by rw [unspanned, width, width]
  | .ifStmt _ cond body | .whileStmt _ cond body => by
    rw [unspanned, width, width, cond.width_unspanned, Stmt.widths_unspannedAll body]
  | .ifElseStmt _ cond body other => by
    rw [unspanned, width, width, cond.width_unspanned, Stmt.widths_unspannedAll body,
      Stmt.widths_unspannedAll other]
  | .exprStmt _ value => by rw [unspanned, width, width, value.width_unspanned]

/-- The code of a block is as long without spans. -/
theorem Stmt.widths_unspannedAll : ∀ ss : List Stmt,
    Stmt.widths (Stmt.unspannedAll ss) = Stmt.widths ss
  | [] => by rw [unspannedAll]
  | s :: rest => by
    rw [unspannedAll, widths, widths, s.width_unspanned, Stmt.widths_unspannedAll rest]

end

namespace Program

mutual

/-- The code of an expression does not depend on spans. -/
theorem expr_unspanned : ∀ (e : Expr) (p : Program), p.expr e.unspanned = p.expr e
  | .literal _ _, p | .name _ _ _, p => by rw [Expr.unspanned, expr, expr]
  | .binary _ _ left right, p => by
    rw [Expr.unspanned, expr, expr, expr_unspanned left, expr_unspanned right]
  | .not _ operand, p => by rw [Expr.unspanned, expr, expr, expr_unspanned operand]
  | .call _ _ _ args, p => by
    rw [Expr.unspanned, expr, expr, exprs_unspanned args, Walk.length_unspannedAll]

/-- The code of some expressions does not depend on spans. -/
theorem exprs_unspanned : ∀ (es : List Expr) (p : Program),
    p.exprs (Expr.unspannedAll es) = p.exprs es
  | [], p => by rw [Expr.unspannedAll]
  | e :: rest, p => by
    rw [Expr.unspannedAll, exprs, exprs, expr_unspanned e, exprs_unspanned rest]

end

mutual

/-- The code of a statement does not depend on spans. -/
theorem stmt_unspanned : ∀ (s : Stmt) (p : Program) (around : Option LoopBounds),
    p.stmt around s.unspanned = p.stmt around s
  | .letStmt _ _ none, p, around => by rw [Stmt.unspanned, Option.map_none, stmt, stmt]
  | .letStmt _ _ (some value), p, around => by
    rw [Stmt.unspanned, Option.map_some, stmt, stmt, expr_unspanned]
  | .fnStmt _ name params body, p, around => by
    rw [Stmt.unspanned, stmt, stmt, Stmt.widths_unspannedAll, endsWithReturn_unspanned,
      block_unspanned body]
  | .returnStmt _ none, p, around => by rw [Stmt.unspanned, Option.map_none, stmt, stmt]
  | .returnStmt _ (some value), p, around => by
    rw [Stmt.unspanned, Option.map_some, stmt, stmt, expr_unspanned]
  | .breakStmt _, p, around | .continueStmt _, p, around => by
    cases around <;> rw [Stmt.unspanned, stmt, stmt]
  | .ifStmt _ cond body, p, around => by
    rw [Stmt.unspanned, stmt, stmt, expr_unspanned, Stmt.widths_unspannedAll, block_unspanned body]
  | .ifElseStmt _ cond body other, p, around => by
    rw [Stmt.unspanned, stmt, stmt, expr_unspanned, Stmt.widths_unspannedAll,
      Stmt.widths_unspannedAll, block_unspanned body, block_unspanned other]
  | .whileStmt _ cond body, p, around => by
    rw [Stmt.unspanned, stmt, stmt, expr_unspanned, Stmt.widths_unspannedAll, block_unspanned body]
  | .exprStmt _ value, p, around => by rw [Stmt.unspanned, stmt, stmt, expr_unspanned]

/-- The code of a block does not depend on spans. -/
theorem block_unspanned : ∀ (ss : List Stmt) (p : Program) (around : Option LoopBounds),
    p.block around (Stmt.unspannedAll ss) = p.block around ss
  | [], p, around => by rw [Stmt.unspannedAll]
  | s :: rest, p, around => by
    rw [Stmt.unspannedAll, block, block, stmt_unspanned s, block_unspanned rest]

end

end Program

/-- A module without spans has the same program. -/
theorem Module.generate_unspanned (m : Module) : m.unspanned.generate = m.generate :=
  Program.block_unspanned m.body .empty none

end Scriptlet
