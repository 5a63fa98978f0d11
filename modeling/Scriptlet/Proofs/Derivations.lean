import Scriptlet.Tree.Parse

/-!
# Derivations

The parser bounds the depth of its recursion and stops at the first fault.  What it has read when it
succeeds can be told without either of them: `Parse.Derives` has one rule for every way in which a
phrase can be read, and whatever the parser reads has a derivation (`Parse.derives_items`).  Facts
about parsed trees are proved by induction on derivations.
-/

namespace Scriptlet

namespace Parse

/-- What can be read at a cursor. -/
inductive Phrase where
  /-- An expression whose operators bind at least as tightly as `minPrec`. -/
  | expression (minPrec : Nat) (e : Expr)
  /-- The rest of such an expression behind a left operand. -/
  | operators (minPrec : Nat) (left e : Expr)
  | operand (e : Expr)
  | arguments (es : List Expr)
  | parameters (params : List String)
  | declaration (s : Stmt)
  | block (b : Block)
  /-- The statements up to the end of a block. -/
  | statements (b : Block)
  | statement (s : Stmt)
  | conditional (s : Stmt)
  | definition (s : Stmt)
  | items (b : Block)

/-- A phrase is read between two cursors. -/
inductive Derives : Phrase → Cursor → Cursor → Prop
  | expression {minPrec : Nat} {left e : Expr} {c c₁ c₂ : Cursor}
      (hleft : Derives (.operand left) c c₁) (hrest : Derives (.operators minPrec left e) c₁ c₂) :
      Derives (.expression minPrec e) c c₂
  | noOperator {minPrec : Nat} {left : Expr} {c : Cursor}
      (hahead : operatorAhead? minPrec c = none) : Derives (.operators minPrec left left) c c
  | operator {minPrec prec : Nat} {op : BinaryOp} {left right e : Expr} {c c₁ c₂ : Cursor}
      (hahead : operatorAhead? minPrec c = some (op, prec))
      (hright : Derives (.expression (prec + 1) right) c.advance c₁)
      (hrest : Derives
        (.operators minPrec (.binary (left.span.merge right.span) op left right) e) c₁ c₂) :
      Derives (.operators minPrec left e) c c₂
  | number {value : Literal} {c : Cursor} (hkind : c.peek.kind = .number)
      (hvalue : Literal.ofNumber? c.peek.text = some value) :
      Derives (.operand (.literal c.peek.span value)) c c.advance
  | string {c : Cursor} (hkind : c.peek.kind = .string) :
      Derives (.operand (.literal c.peek.span (.str c.peek.text))) c c.advance
  | bool {b : Bool} {c : Cursor}
      (hkind : c.peek.kind = .keyword (if b then .trueWord else .falseWord)) :
      Derives (.operand (.literal c.peek.span (.bool b))) c c.advance
  | name {c : Cursor} (hkind : c.peek.kind = .identifier)
      (hopening : c.advance.atMark .lParen = false) :
      Derives (.operand (.name c.peek.span c.advance.nextId c.peek.text)) c c.advance.takeId
  | call {args : List Expr} {c c₁ : Cursor} (hkind : c.peek.kind = .identifier)
      (hopening : c.advance.atMark .lParen = true)
      (hargs : Derives (.arguments args) c.advance.takeId.advance.skipNewlines c₁)
      (hclosing : c₁.atMark .rParen = true) :
      Derives (.operand
        (.call (c₁.advance.spanSince c.peek.span) c.advance.nextId c.peek.text args)) c c₁.advance
  | parentheses {e : Expr} {c c₁ : Cursor} (hkind : c.peek.kind = .operator .lParen)
      (hinner : Derives (.expression 0 e) c.advance.skipNewlines c₁)
      (hclosing : c₁.skipNewlines.atMark .rParen = true) :
      Derives (.operand (e.withSpan (c₁.skipNewlines.advance.spanSince c.peek.span)))
        c c₁.skipNewlines.advance
  | noArgument {c : Cursor} (hclosing : c.atMark .rParen = true) : Derives (.arguments []) c c
  | lastArgument {e : Expr} {c c₁ : Cursor} (hclosing : c.atMark .rParen = false)
      (hlast : Derives (.expression 0 e) c c₁) (hcomma : c₁.skipNewlines.atMark .comma = false) :
      Derives (.arguments [e]) c c₁.skipNewlines
  | argument {e : Expr} {es : List Expr} {c c₁ c₂ : Cursor} (hclosing : c.atMark .rParen = false)
      (hfirst : Derives (.expression 0 e) c c₁) (hcomma : c₁.skipNewlines.atMark .comma = true)
      (hrest : Derives (.arguments es) c₁.skipNewlines.advance.skipNewlines c₂) :
      Derives (.arguments (e :: es)) c c₂
  | noParameter {c : Cursor} (hclosing : c.atMark .rParen = true) : Derives (.parameters []) c c
  | lastParameter {c : Cursor} (hclosing : c.atMark .rParen = false)
      (hname : c.peek.kind = .identifier) (hcomma : c.advance.skipNewlines.atMark .comma = false) :
      Derives (.parameters [c.peek.text]) c c.advance.skipNewlines
  | parameter {params : List String} {c c₁ : Cursor} (hclosing : c.atMark .rParen = false)
      (hname : c.peek.kind = .identifier) (hcomma : c.advance.skipNewlines.atMark .comma = true)
      (hrest : Derives (.parameters params) c.advance.skipNewlines.advance.skipNewlines c₁) :
      Derives (.parameters (c.peek.text :: params)) c c₁
  | declaration {e : Expr} {c c₁ : Cursor} (hword : c.atWord .letWord = true)
      (hname : c.advance.peek.kind = .identifier) (hmark : c.advance.advance.atMark .eq = true)
      (hvalue : Derives (.expression 0 e) c.advance.advance.advance c₁) :
      Derives (.declaration (.letStmt (c₁.spanSince c.peek.span) c.advance.peek.text (some e))) c c₁
  | block {b : Block} {c c₁ : Cursor} (hopening : c.skipNewlines.atMark .lBrace = true)
      (hbody : Derives (.statements b) c.skipNewlines.advance.skipSeparators c₁) :
      Derives (.block b) c c₁.advance
  | noStatement {c : Cursor} (hclosing : c.atMark .rBrace = true) : Derives (.statements []) c c
  | statements {s : Stmt} {b : Block} {c c₁ c₂ : Cursor} (hclosing : c.atMark .rBrace = false)
      (hfirst : Derives (.statement s) c c₁)
      (hrest : Derives (.statements b) c₁.skipSeparators c₂) : Derives (.statements (s :: b)) c c₂
  | letStatement {s : Stmt} {c c₁ : Cursor} (h : Derives (.declaration s) c c₁) :
      Derives (.statement s) c c₁
  | returnStatement {c : Cursor} (hword : c.atWord .returnWord = true)
      (hend : atStatementEnd c.advance = true) :
      Derives (.statement (.returnStmt (c.advance.spanSince c.peek.span) none)) c c.advance
  | returnValue {e : Expr} {c c₁ : Cursor} (hword : c.atWord .returnWord = true)
      (hend : atStatementEnd c.advance = false) (hvalue : Derives (.expression 0 e) c.advance c₁) :
      Derives (.statement (.returnStmt (c₁.spanSince c.peek.span) (some e))) c c₁
  | ifStatement {s : Stmt} {c c₁ : Cursor} (h : Derives (.conditional s) c c₁) :
      Derives (.statement s) c c₁
  | whileStatement {cond : Expr} {body : Block} {c c₁ c₂ : Cursor}
      (hword : c.atWord .whileWord = true) (hcond : Derives (.expression 0 cond) c.advance c₁)
      (hbody : Derives (.block body) c₁ c₂) :
      Derives (.statement (.whileStmt (c₂.spanSince c.peek.span) cond body)) c c₂
  | breakStatement {c : Cursor} (hname : c.peek.isName breakName = true) :
      Derives (.statement (.breakStmt c.peek.span)) c c.advance
  | continueStatement {c : Cursor} (hname : c.peek.isName continueName = true) :
      Derives (.statement (.continueStmt c.peek.span)) c c.advance
  | expressionStatement {e : Expr} {c c₁ : Cursor} (hbreak : c.peek.isName breakName = false)
      (hcontinue : c.peek.isName continueName = false) (hvalue : Derives (.expression 0 e) c c₁) :
      Derives (.statement (.exprStmt e.span e)) c c₁
  | ifOnly {cond : Expr} {body : Block} {c c₁ c₂ : Cursor} (hword : c.atWord .ifWord = true)
      (hcond : Derives (.expression 0 cond) c.advance c₁) (hbody : Derives (.block body) c₁ c₂)
      (helse : c₂.passElse? = none) :
      Derives (.conditional (.ifStmt (c₂.spanSince c.peek.span) cond body)) c c₂
  | ifElseIf {cond : Expr} {body : Block} {other : Stmt} {c c₁ c₂ c₃ c₄ : Cursor}
      (hword : c.atWord .ifWord = true) (hcond : Derives (.expression 0 cond) c.advance c₁)
      (hbody : Derives (.block body) c₁ c₂) (helse : c₂.passElse? = some c₃)
      (hother : Derives (.conditional other) c₃ c₄) :
      Derives (.conditional (.ifElseStmt (c₄.spanSince c.peek.span) cond body [other])) c c₄
  | ifElse {cond : Expr} {body other : Block} {c c₁ c₂ c₃ c₄ : Cursor}
      (hword : c.atWord .ifWord = true) (hcond : Derives (.expression 0 cond) c.advance c₁)
      (hbody : Derives (.block body) c₁ c₂) (helse : c₂.passElse? = some c₃)
      (hif : c₃.atWord .ifWord = false) (hother : Derives (.block other) c₃ c₄) :
      Derives (.conditional (.ifElseStmt (c₄.spanSince c.peek.span) cond body other)) c c₄
  | definition {params : List String} {body : Block} {c c₁ c₂ : Cursor}
      (hword : c.atWord .fnWord = true) (hname : c.advance.peek.kind = .identifier)
      (hopening : c.advance.advance.atMark .lParen = true)
      (hparams : Derives (.parameters params) c.advance.advance.advance.skipNewlines c₁)
      (hclosing : c₁.atMark .rParen = true) (hbody : Derives (.block body) c₁.advance c₂) :
      Derives (.definition
        (.fnStmt (c₂.spanSince c.peek.span) c.advance.peek.text params body)) c c₂
  | noItem {c : Cursor} (hend : c.skipSeparators.atEnd = true) :
      Derives (.items []) c c.skipSeparators
  | letItem {s : Stmt} {b : Block} {c c₁ c₂ : Cursor}
      (hfirst : Derives (.declaration s) c.skipSeparators c₁) (hrest : Derives (.items b) c₁ c₂) :
      Derives (.items (s :: b)) c c₂
  | fnItem {s : Stmt} {b : Block} {c c₁ c₂ : Cursor}
      (hfirst : Derives (.definition s) c.skipSeparators c₁) (hrest : Derives (.items b) c₁ c₂) :
      Derives (.items (s :: b)) c c₂
  /-- A token between the items is skipped. -/
  | skipped {b : Block} {c c₁ : Cursor} (hend : c.skipSeparators.atEnd = false)
      (hlet : c.skipSeparators.atWord .letWord = false)
      (hfn : c.skipSeparators.atWord .fnWord = false)
      (hrest : Derives (.items b) c.skipSeparators.advance c₁) : Derives (.items b) c c₁

/-! ## What is read has a derivation -/

/-- Two steps that succeed one after the other. -/
theorem exists_of_bind {ε α β : Type} {x : Except ε α} {f : α → Except ε β} {b : β}
    (h : x >>= f = .ok b) : ∃ a, x = .ok a ∧ f a = .ok b := by
  cases x with
  | error fault => cases h
  | ok a => exact ⟨a, rfl, h⟩

/-- A step that reads a token succeeds only if the token is the one that is looked for. -/
theorem of_expect {β : Type} {c : Cursor} {p : Token → Bool} {what : Expectation}
    {f : Token × Cursor → Except SyntaxFault β} {b : β} (h : c.expect p what >>= f = .ok b) :
    p c.peek = true ∧ f (c.peek, c.advance) = .ok b := by
  obtain ⟨⟨t, c'⟩, hread, h⟩ := exists_of_bind h
  unfold Cursor.expect at hread
  split at hread
  · next hp =>
    cases hread
    exact ⟨hp, h⟩
  · cases hread

/-- A step that reads a mark succeeds only if the mark is next. -/
theorem of_expectMark {β : Type} {c : Cursor} {mark : Operator}
    {f : Token × Cursor → Except SyntaxFault β} {b : β} (h : c.expectMark mark >>= f = .ok b) :
    c.atMark mark = true ∧ f (c.peek, c.advance) = .ok b :=
  of_expect h

/-- A step that reads a reserved word succeeds only if the word is next. -/
theorem of_expectWord {β : Type} {c : Cursor} {word : Keyword}
    {f : Token × Cursor → Except SyntaxFault β} {b : β} (h : c.expectWord word >>= f = .ok b) :
    c.atWord word = true ∧ f (c.peek, c.advance) = .ok b :=
  of_expect h

/-- A step that reads a name succeeds only if a name is next. -/
theorem of_expectName {β : Type} {c : Cursor} {what : Expectation}
    {f : Token × Cursor → Except SyntaxFault β} {b : β} (h : c.expectName what >>= f = .ok b) :
    c.peek.kind = .identifier ∧ f (c.peek, c.advance) = .ok b := by
  obtain ⟨hkind, h⟩ := of_expect h
  exact ⟨eq_of_beq hkind, h⟩

mutual

/-- An expression that is read has a derivation. -/
theorem derives_binary : ∀ (depth : Nat) {minPrec : Nat} {c c' : Cursor} {e : Expr},
    binary depth minPrec c = .ok (e, c') → Derives (.expression minPrec e) c c'
  | 0, _, _, _, _, h => by
    rw [binary] at h
    cases h
  | depth + 1, minPrec, c, c', e, h => by
    rw [binary] at h
    obtain ⟨⟨left, c₁⟩, hleft, h⟩ := exists_of_bind h
    exact .expression (derives_primary depth hleft) (derives_operators depth h)

/-- What is read behind a left operand has a derivation. -/
theorem derives_operators : ∀ (depth : Nat) {minPrec : Nat} {left : Expr} {c c' : Cursor}
    {e : Expr}, operators depth minPrec left c = .ok (e, c') →
    Derives (.operators minPrec left e) c c'
  | 0, _, _, _, _, _, h => by
    rw [operators] at h
    cases h
  | depth + 1, minPrec, left, c, c', e, h => by
    rw [operators] at h
    split at h
    · next hahead =>
      cases h
      exact .noOperator hahead
    · next op prec hahead =>
      obtain ⟨⟨right, c₁⟩, hright, h⟩ := exists_of_bind h
      exact .operator hahead (derives_binary depth hright) (derives_operators depth h)

/-- An operand that is read has a derivation, with one rule for every kind of token that can start
it. -/
theorem derives_primary : ∀ (depth : Nat) {c c' : Cursor} {e : Expr},
    primary depth c = .ok (e, c') → Derives (.operand e) c c'
  | 0, _, _, _, h => by
    rw [primary] at h
    cases h
  | depth + 1, c, c', e, h => by
    rw [primary] at h
    dsimp only at h
    split at h
    · next hkind =>
      split at h
      · next value hvalue =>
        cases h
        exact .number hkind hvalue
      · cases h
    · next hkind =>
      cases h
      exact .string hkind
    · next hkind =>
      cases h
      exact .bool hkind
    · next hkind =>
      cases h
      exact .bool hkind
    · next hkind =>
      split at h
      · next hopening =>
        obtain ⟨⟨args, c₁⟩, hargs, h⟩ := exists_of_bind h
        obtain ⟨hclosing, h⟩ := of_expectMark h
        cases h
        exact .call hkind hopening (derives_arguments depth hargs) hclosing
      · next hopening =>
        cases h
        exact .name hkind (eq_false_of_ne_true hopening)
    · next hkind =>
      obtain ⟨⟨inner, c₁⟩, hinner, h⟩ := exists_of_bind h
      obtain ⟨hclosing, h⟩ := of_expectMark h
      cases h
      exact .parentheses hkind (derives_binary depth hinner) hclosing
    · cases h

/-- The arguments of a call that are read have a derivation. -/
theorem derives_arguments : ∀ (depth : Nat) {c c' : Cursor} {es : List Expr},
    arguments depth c = .ok (es, c') → Derives (.arguments es) c c'
  | 0, _, _, _, h => by
    rw [arguments] at h
    cases h
  | depth + 1, c, c', es, h => by
    rw [arguments] at h
    split at h
    · next hclosing =>
      cases h
      exact .noArgument hclosing
    · next hclosing =>
      obtain ⟨⟨arg, c₁⟩, harg, h⟩ := exists_of_bind h
      have hclosing := eq_false_of_ne_true hclosing
      dsimp only at h
      split at h
      · next hcomma =>
        obtain ⟨⟨args, c₂⟩, hargs, h⟩ := exists_of_bind h
        cases h
        exact .argument hclosing (derives_binary depth harg) hcomma (derives_arguments depth hargs)
      · next hcomma =>
        cases h
        exact .lastArgument hclosing (derives_binary depth harg)
          (eq_false_of_ne_true hcomma)

end

/-- The parameters of a function that are read have a derivation. -/
theorem derives_parameters : ∀ (depth : Nat) {c c' : Cursor} {params : List String},
    parameters depth c = .ok (params, c') → Derives (.parameters params) c c'
  | 0, _, _, _, h => by
    rw [parameters] at h
    cases h
  | depth + 1, c, c', params, h => by
    rw [parameters] at h
    split at h
    · next hclosing =>
      cases h
      exact .noParameter hclosing
    · next hclosing =>
      obtain ⟨hname, h⟩ := of_expectName h
      have hclosing := eq_false_of_ne_true hclosing
      dsimp only at h
      split at h
      · next hcomma =>
        obtain ⟨⟨rest, c₂⟩, hrest, h⟩ := exists_of_bind h
        cases h
        exact .parameter hclosing hname hcomma (derives_parameters depth hrest)
      · next hcomma =>
        cases h
        exact .lastParameter hclosing hname (eq_false_of_ne_true hcomma)

/-- A declaration that is read has a derivation. -/
theorem derives_letDecl {depth : Nat} {c c' : Cursor} {s : Stmt}
    (h : letDecl depth c = .ok (s, c')) : Derives (.declaration s) c c' := by
  unfold letDecl at h
  obtain ⟨hword, h⟩ := of_expectWord h
  obtain ⟨hname, h⟩ := of_expectName h
  obtain ⟨hmark, h⟩ := of_expectMark h
  obtain ⟨⟨value, c₁⟩, hvalue, h⟩ := exists_of_bind h
  cases h
  exact .declaration hword hname hmark (derives_binary depth hvalue)

mutual

/-- A block that is read has a derivation. -/
theorem derives_block : ∀ (depth : Nat) {c c' : Cursor} {b : Block},
    block depth c = .ok (b, c') → Derives (.block b) c c'
  | 0, _, _, _, h => by
    rw [block] at h
    cases h
  | depth + 1, c, c', b, h => by
    rw [block] at h
    obtain ⟨hopening, h⟩ := of_expectMark h
    obtain ⟨⟨body, c₁⟩, hbody, h⟩ := exists_of_bind h
    cases h
    exact .block hopening (derives_statements depth hbody)

/-- The statements of a block that are read have a derivation, wherever the block was opened. -/
theorem derives_statements : ∀ (depth : Nat) {opened : Span} {c c' : Cursor} {b : Block},
    statements depth opened c = .ok (b, c') → Derives (.statements b) c c'
  | 0, _, _, _, _, h => by
    rw [statements] at h
    cases h
  | depth + 1, opened, c, c', b, h => by
    rw [statements] at h
    split at h
    · next hclosing =>
      cases h
      exact .noStatement hclosing
    · next hclosing =>
      split at h
      · cases h
      · obtain ⟨⟨first, c₁⟩, hfirst, h⟩ := exists_of_bind h
        obtain ⟨⟨rest, c₂⟩, hrest, h⟩ := exists_of_bind h
        cases h
        exact .statements (eq_false_of_ne_true hclosing) (derives_statement depth hfirst)
          (derives_statements depth hrest)

/-- A statement that is read has a derivation.  The names `break` and `continue` are looked for
before an expression is read, so an expression statement starts with neither of them. -/
theorem derives_statement : ∀ (depth : Nat) {c c' : Cursor} {s : Stmt},
    statement depth c = .ok (s, c') → Derives (.statement s) c c'
  | 0, _, _, _, h => by
    rw [statement] at h
    cases h
  | depth + 1, c, c', s, h => by
    rw [statement] at h
    dsimp only at h
    split at h
    · exact .letStatement (derives_letDecl h)
    split at h
    · next hword =>
      split at h
      · next hend =>
        cases h
        exact .returnStatement hword hend
      · next hend =>
        obtain ⟨⟨value, c₁⟩, hvalue, h⟩ := exists_of_bind h
        cases h
        exact .returnValue hword (eq_false_of_ne_true hend) (derives_binary depth hvalue)
    split at h
    · exact .ifStatement (derives_conditional depth h)
    split at h
    · next hword =>
      obtain ⟨⟨cond, c₁⟩, hcond, h⟩ := exists_of_bind h
      obtain ⟨⟨body, c₂⟩, hbody, h⟩ := exists_of_bind h
      cases h
      exact .whileStatement hword (derives_binary depth hcond) (derives_block depth hbody)
    split at h
    · next hname =>
      cases h
      exact .breakStatement hname
    split at h
    · next hname =>
      cases h
      exact .continueStatement hname
    · next hbreak hcontinue =>
      obtain ⟨⟨value, c₁⟩, hvalue, h⟩ := exists_of_bind h
      cases h
      exact .expressionStatement (eq_false_of_ne_true hbreak)
        (eq_false_of_ne_true hcontinue) (derives_binary depth hvalue)

/-- A conditional that is read has a derivation. -/
theorem derives_conditional : ∀ (depth : Nat) {c c' : Cursor} {s : Stmt},
    conditional depth c = .ok (s, c') → Derives (.conditional s) c c'
  | 0, _, _, _, h => by
    rw [conditional] at h
    cases h
  | depth + 1, c, c', s, h => by
    rw [conditional] at h
    obtain ⟨hword, h⟩ := of_expectWord h
    obtain ⟨⟨cond, c₁⟩, hcond, h⟩ := exists_of_bind h
    obtain ⟨⟨body, c₂⟩, hbody, h⟩ := exists_of_bind h
    have hcond := derives_binary depth hcond
    have hbody := derives_block depth hbody
    dsimp only at h
    split at h
    · next helse =>
      cases h
      exact .ifOnly hword hcond hbody helse
    · next c₃ helse =>
      split at h
      · obtain ⟨⟨other, c₄⟩, hother, h⟩ := exists_of_bind h
        cases h
        exact .ifElseIf hword hcond hbody helse (derives_conditional depth hother)
      · next hif =>
        obtain ⟨⟨other, c₄⟩, hother, h⟩ := exists_of_bind h
        cases h
        exact .ifElse hword hcond hbody helse (eq_false_of_ne_true hif)
          (derives_block depth hother)

end

/-- A function that is read has a derivation. -/
theorem derives_functionDef {depth : Nat} {c c' : Cursor} {s : Stmt}
    (h : functionDef depth c = .ok (s, c')) : Derives (.definition s) c c' := by
  unfold functionDef at h
  obtain ⟨hword, h⟩ := of_expectWord h
  obtain ⟨hname, h⟩ := of_expectName h
  obtain ⟨hopening, h⟩ := of_expectMark h
  obtain ⟨⟨params, c₁⟩, hparams, h⟩ := exists_of_bind h
  obtain ⟨hclosing, h⟩ := of_expectMark h
  obtain ⟨⟨body, c₂⟩, hbody, h⟩ := exists_of_bind h
  cases h
  exact .definition hword hname hopening (derives_parameters depth hparams) hclosing
    (derives_block depth hbody)

/-- The items of a module that are read have a derivation. -/
theorem derives_items : ∀ (depth : Nat) {c c' : Cursor} {b : Block},
    items depth c = .ok (b, c') → Derives (.items b) c c'
  | 0, _, _, _, h => by
    rw [items] at h
    cases h
  | depth + 1, c, c', b, h => by
    rw [items] at h
    dsimp only at h
    split at h
    · next hend =>
      cases h
      exact .noItem hend
    split at h
    · obtain ⟨⟨first, c₁⟩, hfirst, h⟩ := exists_of_bind h
      obtain ⟨⟨rest, c₂⟩, hrest, h⟩ := exists_of_bind h
      cases h
      exact .letItem (derives_letDecl hfirst) (derives_items depth hrest)
    split at h
    · obtain ⟨⟨first, c₁⟩, hfirst, h⟩ := exists_of_bind h
      obtain ⟨⟨rest, c₂⟩, hrest, h⟩ := exists_of_bind h
      cases h
      exact .fnItem (derives_functionDef hfirst) (derives_items depth hrest)
    · next hend hlet hfn =>
      exact .skipped (eq_false_of_ne_true hend) (eq_false_of_ne_true hlet)
        (eq_false_of_ne_true hfn) (derives_items depth h)

end Parse

/-- A module that is read has a derivation from the first token on. -/
theorem Module.derives_of_parse {tokens : List Token} {m : Module} (h : parse tokens = .ok m) :
    ∃ c, Parse.Derives (.items m.body) (.ofTokens tokens) c ∧ m.nodeCount = c.nextId := by
  unfold parse at h
  dsimp only at h
  cases hitems : Parse.items (Parse.depthFor (.ofTokens tokens)) (.ofTokens tokens) with
  | error fault =>
    rw [hitems] at h
    cases h
  | ok read =>
    obtain ⟨b, c⟩ := read
    rw [hitems] at h
    cases h
    exact ⟨c, Parse.derives_items _ hitems, rfl⟩

end Scriptlet
