import Scriptlet.Proofs.Precedence
import Scriptlet.Proofs.Slices

/-!
# Spans of a parsed tree

A parser keeps the span of the token that it has read last, and the span of a node goes from its
first token to there.  Along a derivation the cursor passes exactly the tokens of what is read
(`Parse.Derives.stands`), so such a span is the extent of these tokens.  All nodes of a module that
is read from a text have spans of this kind, and the text inside of a span is the text of the node
(`Module.parse_spans`).
-/

namespace Scriptlet

/-! ## Passing tokens -/

namespace Cursor

/-- A cursor passes some tokens on the way to another place. -/
structure Passes (c : Cursor) (ts : List Token) (c' : Cursor) : Prop where
  ahead : c.ahead = ts ++ c'.ahead
  last : c'.last = (ts.getLast?.map Token.span).getD c.last

/-- The next token, if it is a reserved word. -/
def word (c : Cursor) {k : Keyword} (h : c.atWord k = true) : TokenOf (.keyword k) :=
  ⟨c.peek, eq_of_beq h⟩

/-- The next token, if it is a name. -/
def name (c : Cursor) (h : c.peek.kind = .identifier) : TokenOf .identifier := ⟨c.peek, h⟩

/-- The line ends and semicolons that are skipped. -/
def separators (c : Cursor) : Separators where
  tokens := c.ahead.takeWhile fun t => t.kind == .newline || t.isOperator .semicolon
  separator t ht := by
    have hall := List.all_eq_true.mp (@List.all_takeWhile _
      (fun t : Token => t.kind == .newline || t.isOperator .semicolon) c.ahead) t ht
    exact (Bool.or_eq_true_iff.mp hall).imp eq_of_beq eq_of_beq

namespace Passes

variable {c c₁ c₂ : Cursor} {t : Token} {ts us : List Token}

theorem nil (c : Cursor) : c.Passes [] c := ⟨rfl, rfl⟩

/-- What is passed on two ways is passed on both together. -/
theorem trans (h : c.Passes ts c₁) (h' : c₁.Passes us c₂) : c.Passes (ts ++ us) c₂ := by
  refine ⟨by rw [h.ahead, h'.ahead, List.append_assoc], ?_⟩
  rw [h'.last, h.last, List.getLast?_append]
  cases us.getLast? <;> rfl

theorem takeId (h : c.Passes ts c₁) : c.Passes ts c₁.takeId := ⟨h.ahead, h.last⟩

theorem inOrder (h : c.Passes ts c₁) (hc : Token.InOrder c.ahead) : Token.InOrder c₁.ahead :=
  (h.ahead ▸ hc : Token.InOrder (ts ++ c₁.ahead)).right

theorem inOrder_passed (h : c.Passes ts c₁) (hc : Token.InOrder c.ahead) : Token.InOrder ts :=
  (h.ahead ▸ hc : Token.InOrder (ts ++ c₁.ahead)).left

/-- The span from the first of the tokens that are passed. -/
theorem spanSince (h : c.Passes (t :: ts) c₁) (hc : Token.InOrder c.ahead) :
    c₁.spanSince c.peek.span = extent (t :: ts) := by
  rw [peek_of_ahead h.ahead, Cursor.spanSince, h.last, List.getLast?_cons,
    ← List.getLastD_eq_getLast?]
  exact (h.inOrder_passed hc).merge_last

end Passes

/-- Moving on passes the next token if there is one. -/
theorem passes_of_ahead {c : Cursor} (h : c.ahead = c.peek :: c.advance.ahead) :
    c.Passes [c.peek] c.advance := by
  refine ⟨h, ?_⟩
  rw [advance, h]
  rfl

/-- There is a next token if it is not the end of the input. -/
theorem passes_of_kind {c : Cursor} {kind : TokenKind} (hkind : c.peek.kind = kind)
    (hne : kind ≠ .endOfInput) : c.Passes [c.peek] c.advance :=
  passes_of_ahead (c.ahead_of_kind hkind hne)

/-- There is a next token before the end. -/
theorem passes_of_atEnd {c : Cursor} (h : c.atEnd = false) : c.Passes [c.peek] c.advance := by
  obtain ⟨t, rest, hahead⟩ := List.exists_cons_of_ne_nil (List.isEmpty_eq_false_iff.mp h)
  refine passes_of_ahead ?_
  rw [peek_of_ahead hahead, ahead_advance hahead, hahead]

theorem passes_mark {c : Cursor} {o : Operator} (h : c.atMark o = true) :
    c.Passes [(c.mark h).token] c.advance :=
  passes_of_kind (c.kind_of_atMark h) TokenKind.noConfusion

theorem passes_word {c : Cursor} {k : Keyword} (h : c.atWord k = true) :
    c.Passes [(c.word h).token] c.advance :=
  passes_of_kind (c.word h).kind_eq TokenKind.noConfusion

theorem passes_name {c : Cursor} (h : c.peek.kind = .identifier) :
    c.Passes [(c.name h).token] c.advance :=
  passes_of_kind h TokenKind.noConfusion

/-- Moving on from a given name passes it. -/
theorem passes_of_isName {c : Cursor} {name : String} (h : c.peek.isName name = true) :
    c.Passes [c.peek] c.advance := by
  obtain ⟨hkind, -⟩ := Bool.and_eq_true_iff.mp h
  exact passes_name (eq_of_beq hkind)

theorem passes_newlines (c : Cursor) : c.Passes c.newlines.tokens c.skipNewlines :=
  ⟨c.ahead_eq_newlines, rfl⟩

theorem passes_separators (c : Cursor) : c.Passes c.separators.tokens c.skipSeparators :=
  ⟨(List.takeWhile_append_dropWhile ..).symm, rfl⟩

/-- The word `else` is passed with the line ends before it. -/
theorem passes_else {c c' : Cursor} (h : c.passElse? = some c') :
    ∃ word : TokenOf (.keyword .elseWord), c.Passes (c.newlines.tokens ++ [word.token]) c' := by
  unfold passElse? at h
  dsimp only at h
  split at h
  · next hword =>
    cases h
    exact ⟨c.skipNewlines.word hword, c.passes_newlines.trans (passes_word hword)⟩
  · cases h

end Cursor

/-! ## What is read stands over what is passed -/

/-- Tokens that start no item may stand in front of items. -/
theorem Over.items_behind {b : Block} {gap ts : List Token} (h : Over (.items b) ts)
    (hgap : ∀ t ∈ gap, t.isKeyword .letWord = false ∧ t.isKeyword .fnWord = false) :
    Over (.items b) (gap ++ ts) := by
  cases h with
  | noItem hgap' => exact .noItem (List.forall_mem_append.mpr ⟨hgap, hgap'⟩)
  | items hgap' hfirst hrest =>
    rw [← List.append_assoc]
    exact .items (List.forall_mem_append.mpr ⟨hgap, hgap'⟩) hfirst hrest

/-- No item starts with a separator. -/
theorem Separators.starts_no_item (gap : Separators) :
    ∀ t ∈ gap.tokens, t.isKeyword .letWord = false ∧ t.isKeyword .fnWord = false := by
  intro t ht
  rw [Token.isKeyword, Token.isKeyword]
  rcases gap.separator t ht with hkind | hkind <;> rw [hkind] <;> exact ⟨rfl, rfl⟩

namespace Parse

/-- A passage stands over what is passed between two cursors. -/
def Lies (c c' : Cursor) (p : Passage) : Prop := ∃ ts, c.Passes ts c' ∧ Over p ts

/-- Whatever is passed, what lies ahead stays in order. -/
theorem Lies.inOrder {c c' : Cursor} {p : Passage} (h : Lies c c' p) (hc : Token.InOrder c.ahead) :
    Token.InOrder c'.ahead := by
  obtain ⟨ts, hpass, -⟩ := h
  exact hpass.inOrder hc

/-- What is read between two cursors stands over the tokens that are passed. -/
def Phrase.Stands (c c' : Cursor) : Phrase → Prop
  | .expression _ e | .operand e => Lies c c' (.expression e)
  | .operators _ left e => ∀ {ls : List Token}, Over (.expression left) ls →
      Token.InOrder (ls ++ c.ahead) → ∃ ts, c.Passes ts c' ∧ Over (.expression e) (ls ++ ts)
  | .arguments es => Lies c c' (.arguments es)
  | .parameters params => Lies c c' (.parameters params)
  | .declaration s | .statement s | .definition s => Lies c c' (.statement s)
  | .conditional s => Lies c c' (.conditional s)
  | .block b => Lies c c' (.block b)
  | .statements b => Lies c c' (.statements b) ∧ c'.atMark .rBrace = true
  | .items b => Lies c c' (.items b) ∧ c'.atEnd = true

section

variable {c c₁ c₂ c₃ c₄ : Cursor}

/-- A literal has the span of its token. -/
theorem lies_literal {value : Literal} (ht : c.peek.Denotes value) :
    Lies c c.advance (.expression (.literal c.peek.span value)) := by
  have hahead : c.ahead = c.peek :: c.advance.ahead :=
    c.ahead_of_kind rfl fun h => absurd ht.startsExpr (by rw [h]; decide)
  exact ⟨_, Cursor.passes_of_ahead hahead, .literal c.peek ht⟩

/-- A call has the span of its name, its arguments and its parentheses. -/
theorem lies_call {args : List Expr} (hc : Token.InOrder c.ahead)
    (hkind : c.peek.kind = .identifier) (hopening : c.advance.atMark .lParen = true)
    (hargs : Token.InOrder c.advance.takeId.advance.skipNewlines.ahead →
      Lies c.advance.takeId.advance.skipNewlines c₁ (.arguments args))
    (hclosing : c₁.atMark .rParen = true) :
    Lies c c₁.advance (.expression
      (.call (c₁.advance.spanSince c.peek.span) c.advance.nextId c.peek.text args)) := by
  have hopening' : c.advance.takeId.atMark .lParen = true := hopening
  have hopened := (Cursor.passes_name hkind).takeId.trans
    ((Cursor.passes_mark hopening').trans (Cursor.passes_newlines _))
  obtain ⟨us, hpass, hover⟩ := hargs (hopened.inOrder hc)
  have hpassed := hopened.trans (hpass.trans (Cursor.passes_mark hclosing))
  refine ⟨_, hpassed, ?_⟩
  rw [hpassed.spanSince hc]
  exact .call (c.name hkind) _ _ _ hover rfl

/-- What stands in parentheses gets the span of the parentheses. -/
theorem lies_parentheses {e : Expr} (hc : Token.InOrder c.ahead)
    (hkind : c.peek.kind = .operator .lParen)
    (hinner : Token.InOrder c.advance.skipNewlines.ahead →
      Lies c.advance.skipNewlines c₁ (.expression e))
    (hclosing : c₁.skipNewlines.atMark .rParen = true) :
    Lies c c₁.skipNewlines.advance
      (.expression (e.withSpan (c₁.skipNewlines.advance.spanSince c.peek.span))) := by
  have hopening : c.atMark .lParen = true := beq_of_eq hkind
  have hopened := (Cursor.passes_mark hopening).trans (Cursor.passes_newlines _)
  obtain ⟨us, hpass, hover⟩ := hinner (hopened.inOrder hc)
  have hpassed := hopened.trans
    (hpass.trans (c₁.passes_newlines.trans (Cursor.passes_mark hclosing)))
  refine ⟨_, hpassed, ?_⟩
  rw [hpassed.spanSince hc]
  exact .group (c.mark hopening) _ _ _ hover rfl

/-- A declaration has the span from its word to the end of its value. -/
theorem lies_declaration {e : Expr} (hc : Token.InOrder c.ahead) (hword : c.atWord .letWord = true)
    (hname : c.advance.peek.kind = .identifier) (hmark : c.advance.advance.atMark .eq = true)
    (hvalue : Token.InOrder c.advance.advance.advance.ahead →
      Lies c.advance.advance.advance c₁ (.expression e)) :
    Lies c c₁ (.statement (.letStmt (c₁.spanSince c.peek.span) c.advance.peek.text (some e))) := by
  have hopened := (Cursor.passes_word hword).trans
    ((Cursor.passes_name hname).trans (Cursor.passes_mark hmark))
  obtain ⟨us, hpass, hover⟩ := hvalue (hopened.inOrder hc)
  have hpassed := hopened.trans hpass
  refine ⟨_, hpassed, ?_⟩
  rw [hpassed.spanSince hc]
  exact .letStmt (c.word hword) (c.advance.name hname) _ hover rfl

/-- A function has the span from its word to the end of its body. -/
theorem lies_definition {params : List String} {body : Block} (hc : Token.InOrder c.ahead)
    (hword : c.atWord .fnWord = true) (hname : c.advance.peek.kind = .identifier)
    (hopening : c.advance.advance.atMark .lParen = true)
    (hparams : Token.InOrder c.advance.advance.advance.skipNewlines.ahead →
      Lies c.advance.advance.advance.skipNewlines c₁ (.parameters params))
    (hclosing : c₁.atMark .rParen = true)
    (hbody : Token.InOrder c₁.advance.ahead → Lies c₁.advance c₂ (.block body)) :
    Lies c c₂ (.statement
      (.fnStmt (c₂.spanSince c.peek.span) c.advance.peek.text params body)) := by
  have hopened := (Cursor.passes_word hword).trans ((Cursor.passes_name hname).trans
    ((Cursor.passes_mark hopening).trans (Cursor.passes_newlines _)))
  obtain ⟨us, hpass, hover⟩ := hparams (hopened.inOrder hc)
  have hclosed := Cursor.passes_mark hclosing
  obtain ⟨vs, hpass', hover'⟩ := hbody (hclosed.inOrder ((hopened.trans hpass).inOrder hc))
  have hpassed := hopened.trans (hpass.trans (hclosed.trans hpass'))
  refine ⟨_, hpassed, ?_⟩
  rw [hpassed.spanSince hc]
  exact .fnStmt (c.word hword) (c.advance.name hname) _ _ _ hover hover' rfl

/-- A word, a condition and a block, as loops and conditionals start. -/
theorem exists_guarded {k : Keyword} {cond : Expr} {body : Block} (hc : Token.InOrder c.ahead)
    (hword : c.atWord k = true)
    (hcond : Token.InOrder c.advance.ahead → Lies c.advance c₁ (.expression cond))
    (hbody : Token.InOrder c₁.ahead → Lies c₁ c₂ (.block body)) :
    ∃ us vs, c.Passes ((c.word hword).token :: (us ++ vs)) c₂ ∧ Over (.expression cond) us ∧
      Over (.block body) vs := by
  have hword' := Cursor.passes_word hword
  obtain ⟨us, hpass, hover⟩ := hcond (hword'.inOrder hc)
  obtain ⟨vs, hpass', hover'⟩ := hbody ((hword'.trans hpass).inOrder hc)
  exact ⟨us, vs, hword'.trans (hpass.trans hpass'), hover, hover'⟩

/-- The same with an alternative behind the word `else`. -/
theorem exists_alternative {k : Keyword} {cond : Expr} {body : Block} {p : Passage}
    (hc : Token.InOrder c.ahead) (hword : c.atWord k = true)
    (hcond : Token.InOrder c.advance.ahead → Lies c.advance c₁ (.expression cond))
    (hbody : Token.InOrder c₁.ahead → Lies c₁ c₂ (.block body)) (helse : c₂.passElse? = some c₃)
    (hother : Token.InOrder c₃.ahead → Lies c₃ c₄ p) :
    ∃ us vs ws, ∃ gap : Newlines, ∃ word : TokenOf (.keyword .elseWord),
      c.Passes ((c.word hword).token :: (us ++ (vs ++ (gap.tokens ++ word.token :: ws)))) c₄ ∧
      Over (.expression cond) us ∧ Over (.block body) vs ∧ Over p ws := by
  obtain ⟨us, vs, hpass, hover, hover'⟩ := exists_guarded hc hword hcond hbody
  obtain ⟨word, hpass'⟩ := Cursor.passes_else helse
  obtain ⟨ws, hpass'', hover''⟩ := hother ((hpass.trans hpass').inOrder hc)
  refine ⟨us, vs, ws, c₂.newlines, word, ?_, hover, hover', hover''⟩
  have hpassed := hpass.trans (hpass'.trans hpass'')
  simpa only [List.cons_append, List.append_assoc, List.nil_append] using hpassed

/-- A while statement has the span of its word, its condition and its body. -/
theorem lies_while {cond : Expr} {body : Block} (hc : Token.InOrder c.ahead)
    (hword : c.atWord .whileWord = true)
    (hcond : Token.InOrder c.advance.ahead → Lies c.advance c₁ (.expression cond))
    (hbody : Token.InOrder c₁.ahead → Lies c₁ c₂ (.block body)) :
    Lies c c₂ (.statement (.whileStmt (c₂.spanSince c.peek.span) cond body)) := by
  obtain ⟨us, vs, hpassed, hover, hover'⟩ := exists_guarded hc hword hcond hbody
  refine ⟨_, hpassed, ?_⟩
  rw [hpassed.spanSince hc]
  exact .whileStmt _ hover hover' rfl

/-- A conditional without an alternative has the span of its word, its condition and its body. -/
theorem lies_ifOnly {cond : Expr} {body : Block} (hc : Token.InOrder c.ahead)
    (hword : c.atWord .ifWord = true)
    (hcond : Token.InOrder c.advance.ahead → Lies c.advance c₁ (.expression cond))
    (hbody : Token.InOrder c₁.ahead → Lies c₁ c₂ (.block body)) :
    Lies c c₂ (.conditional (.ifStmt (c₂.spanSince c.peek.span) cond body)) := by
  obtain ⟨us, vs, hpassed, hover, hover'⟩ := exists_guarded hc hword hcond hbody
  refine ⟨_, hpassed, ?_⟩
  rw [hpassed.spanSince hc]
  exact .ifStmt _ hover hover' rfl

/-- The span of a conditional goes on to the end of the conditional behind its word `else`. -/
theorem lies_ifElseIf {cond : Expr} {body : Block} {other : Stmt} (hc : Token.InOrder c.ahead)
    (hword : c.atWord .ifWord = true)
    (hcond : Token.InOrder c.advance.ahead → Lies c.advance c₁ (.expression cond))
    (hbody : Token.InOrder c₁.ahead → Lies c₁ c₂ (.block body)) (helse : c₂.passElse? = some c₃)
    (hother : Token.InOrder c₃.ahead → Lies c₃ c₄ (.conditional other)) :
    Lies c c₄ (.conditional (.ifElseStmt (c₄.spanSince c.peek.span) cond body [other])) := by
  obtain ⟨us, vs, ws, gap, word, hpassed, hover, hover', hover''⟩ :=
    exists_alternative hc hword hcond hbody helse hother
  refine ⟨_, hpassed, ?_⟩
  rw [hpassed.spanSince hc]
  exact .ifElseIf _ _ _ hover hover' hover'' rfl

/-- The span of a conditional goes on to the end of the block behind its word `else`. -/
theorem lies_ifElse {cond : Expr} {body other : Block} (hc : Token.InOrder c.ahead)
    (hword : c.atWord .ifWord = true)
    (hcond : Token.InOrder c.advance.ahead → Lies c.advance c₁ (.expression cond))
    (hbody : Token.InOrder c₁.ahead → Lies c₁ c₂ (.block body)) (helse : c₂.passElse? = some c₃)
    (hother : Token.InOrder c₃.ahead → Lies c₃ c₄ (.block other)) :
    Lies c c₄ (.conditional (.ifElseStmt (c₄.spanSince c.peek.span) cond body other)) := by
  obtain ⟨us, vs, ws, gap, word, hpassed, hover, hover', hover''⟩ :=
    exists_alternative hc hword hcond hbody helse hother
  refine ⟨_, hpassed, ?_⟩
  rw [hpassed.spanSince hc]
  exact .ifElse _ _ _ hover hover' hover'' rfl

/-- An operator joins the operand that lies behind the cursor with the one that is read next. -/
theorem stands_operator {minPrec prec : Nat} {op : BinaryOp} {left right e : Expr}
    (hc : Token.InOrder c.ahead) (hahead : operatorAhead? minPrec c = some (op, prec))
    (hright : Token.InOrder c.advance.ahead → Lies c.advance c₁ (.expression right))
    (hrest : Token.InOrder c₁.ahead → Phrase.Stands c₁ c₂
      (.operators minPrec (.binary (left.span.merge right.span) op left right) e)) :
    Phrase.Stands c c₂ (.operators minPrec left e) := by
  -- The tokens of the left operand lie behind the cursor, so they are carried along.
  intro ls hleft hls
  obtain ⟨ht, -, -⟩ := marks_of_operatorAhead? hahead
  have hmark : c.Passes [c.peek] c.advance := by
    obtain ⟨mark, -, hkind⟩ := ht
    exact Cursor.passes_of_kind hkind TokenKind.noConfusion
  obtain ⟨rs, hpass, hright⟩ := hright (hmark.inOrder hc)
  have hpassed := hmark.trans hpass
  have hrow : Token.InOrder (ls ++ ([c.peek] ++ rs) ++ c₁.ahead) := by
    rw [List.append_assoc, ← hpassed.ahead]
    exact hls
  have hspan : left.span.merge right.span = extent (ls ++ c.peek :: rs) := by
    rw [hleft.expression_span.2, hright.expression_span.2]
    exact hrow.left.merge_extent hleft.expression_span.1 hright.expression_span.1
  have hjoined := Over.binary c.peek ht hleft hright rfl
  rw [← hspan] at hjoined
  obtain ⟨ts, hpass', hover⟩ := hrest (hpassed.inOrder hc) hjoined hrow
  refine ⟨[c.peek] ++ rs ++ ts, hpassed.trans hpass', ?_⟩
  rw [← List.append_assoc]
  exact hover

/-- An argument and the ones behind its comma. -/
theorem lies_argument {e : Expr} {es : List Expr} (hc : Token.InOrder c.ahead)
    (hfirst : Token.InOrder c.ahead → Lies c c₁ (.expression e))
    (hcomma : c₁.skipNewlines.atMark .comma = true)
    (hrest : Token.InOrder c₁.skipNewlines.advance.skipNewlines.ahead →
      Lies c₁.skipNewlines.advance.skipNewlines c₂ (.arguments es)) :
    Lies c c₂ (.arguments (e :: es)) := by
  obtain ⟨ts, hpass, hover⟩ := hfirst hc
  have hgap := c₁.passes_newlines.trans
    ((Cursor.passes_mark hcomma).trans (Cursor.passes_newlines _))
  obtain ⟨us, hpass', hover'⟩ := hrest ((hpass.trans hgap).inOrder hc)
  exact ⟨_, hpass.trans (c₁.passes_newlines.trans ((Cursor.passes_mark hcomma).trans
    ((Cursor.passes_newlines _).trans hpass'))), .argument _ _ _ hover hover'⟩

/-- A parameter and the ones behind its comma. -/
theorem lies_parameter {params : List String} (hc : Token.InOrder c.ahead)
    (hname : c.peek.kind = .identifier) (hcomma : c.advance.skipNewlines.atMark .comma = true)
    (hrest : Token.InOrder c.advance.skipNewlines.advance.skipNewlines.ahead →
      Lies c.advance.skipNewlines.advance.skipNewlines c₁ (.parameters params)) :
    Lies c c₁ (.parameters (c.peek.text :: params)) := by
  have hgap := (Cursor.passes_name hname).trans ((Cursor.passes_newlines _).trans
    ((Cursor.passes_mark hcomma).trans (Cursor.passes_newlines _)))
  obtain ⟨us, hpass, hover⟩ := hrest (hgap.inOrder hc)
  exact ⟨_, (Cursor.passes_name hname).trans ((Cursor.passes_newlines _).trans
    ((Cursor.passes_mark hcomma).trans ((Cursor.passes_newlines _).trans hpass))),
    .parameter (c.name hname) _ _ _ hover⟩

/-- A block is the statements between its braces. -/
theorem lies_block {b : Block} (hc : Token.InOrder c.ahead)
    (hopening : c.skipNewlines.atMark .lBrace = true)
    (hbody : Token.InOrder c.skipNewlines.advance.skipSeparators.ahead →
      Phrase.Stands c.skipNewlines.advance.skipSeparators c₁ (.statements b)) :
    Lies c c₁.advance (.block b) := by
  have hopened := c.passes_newlines.trans
    ((Cursor.passes_mark hopening).trans (Cursor.passes_separators _))
  obtain ⟨⟨ts, hpass, hover⟩, hclosing⟩ := hbody (hopened.inOrder hc)
  exact ⟨_, c.passes_newlines.trans ((Cursor.passes_mark hopening).trans
    ((Cursor.passes_separators _).trans (hpass.trans (Cursor.passes_mark hclosing)))),
    .block _ _ _ _ hover⟩

/-- A statement and the ones behind the line ends that follow it. -/
theorem stands_statements {s : Stmt} {b : Block} (hc : Token.InOrder c.ahead)
    (hfirst : Token.InOrder c.ahead → Lies c c₁ (.statement s))
    (hrest : Token.InOrder c₁.skipSeparators.ahead →
      Phrase.Stands c₁.skipSeparators c₂ (.statements b)) :
    Phrase.Stands c c₂ (.statements (s :: b)) := by
  obtain ⟨ts, hpass, hover⟩ := hfirst hc
  have hgap := hpass.trans c₁.passes_separators
  obtain ⟨⟨us, hpass', hover'⟩, hclosing⟩ := hrest (hgap.inOrder hc)
  exact ⟨⟨_, hpass.trans (c₁.passes_separators.trans hpass'), .statements _ hover hover'⟩,
    hclosing⟩

/-- A return with a value has the span of its word and the value. -/
theorem lies_returnValue {e : Expr} (hc : Token.InOrder c.ahead)
    (hword : c.atWord .returnWord = true)
    (hvalue : Token.InOrder c.advance.ahead → Lies c.advance c₁ (.expression e)) :
    Lies c c₁ (.statement (.returnStmt (c₁.spanSince c.peek.span) (some e))) := by
  obtain ⟨us, hpass, hover⟩ := hvalue ((Cursor.passes_word hword).inOrder hc)
  have hpassed := (Cursor.passes_word hword).trans hpass
  refine ⟨_, hpassed, ?_⟩
  rw [hpassed.spanSince hc]
  exact .returnValue (c.word hword) hover rfl

/-- An item and the ones that follow it, behind the separators in front. -/
theorem stands_items {s : Stmt} {b : Block} (hc : Token.InOrder c.ahead)
    (hfirst : Token.InOrder c.skipSeparators.ahead → Lies c.skipSeparators c₁ (.statement s))
    (hrest : Token.InOrder c₁.ahead → Phrase.Stands c₁ c₂ (.items b)) :
    Phrase.Stands c c₂ (.items (s :: b)) := by
  have hgap := c.passes_separators.inOrder hc
  have hfirst := hfirst hgap
  obtain ⟨⟨us, hpass', hover'⟩, hend⟩ := hrest (hfirst.inOrder hgap)
  obtain ⟨ts, hpass, hover⟩ := hfirst
  exact ⟨⟨_, c.passes_separators.trans (hpass.trans hpass'),
    .items c.separators.starts_no_item hover hover'⟩, hend⟩

/-- A token that starts no item is left in front of the items. -/
theorem stands_skipped {b : Block} (hc : Token.InOrder c.ahead)
    (hend : c.skipSeparators.atEnd = false) (hlet : c.skipSeparators.atWord .letWord = false)
    (hfn : c.skipSeparators.atWord .fnWord = false)
    (hrest : Token.InOrder c.skipSeparators.advance.ahead →
      Phrase.Stands c.skipSeparators.advance c₁ (.items b)) :
    Phrase.Stands c c₁ (.items b) := by
  have hgap := c.passes_separators.trans (Cursor.passes_of_atEnd hend)
  obtain ⟨⟨ts, hpass, hover⟩, hend⟩ := hrest (hgap.inOrder hc)
  refine ⟨⟨_, hgap.trans hpass, hover.items_behind ?_⟩, hend⟩
  refine List.forall_mem_append.mpr ⟨c.separators.starts_no_item, fun t ht => ?_⟩
  rw [List.mem_singleton.mp ht]
  exact ⟨hlet, hfn⟩

end

/-- What is derived between two cursors stands over the tokens that are passed. -/
theorem Derives.stands {phrase : Phrase} {c c' : Cursor} (h : Derives phrase c c')
    (hc : Token.InOrder c.ahead) : phrase.Stands c c' := by
  induction h with
  | expression _ _ ihleft ihrest =>
    obtain ⟨ls, hpass, hleft⟩ := ihleft hc
    obtain ⟨ts, hpass', hover⟩ := ihrest (hpass.inOrder hc) hleft (hpass.ahead ▸ hc)
    exact ⟨ls ++ ts, hpass.trans hpass', hover⟩
  | @noOperator _ _ c =>
    intro ls hleft _
    exact ⟨[], .nil c, by rwa [List.append_nil]⟩
  | operator hahead _ _ ihright ihrest => exact stands_operator hc hahead ihright ihrest
  | number hkind hvalue => exact lies_literal (.number hkind hvalue)
  | string hkind => exact lies_literal (.string hkind)
  | bool hkind => exact lies_literal (.bool hkind)
  | @name c hkind _ => exact ⟨_, (Cursor.passes_name hkind).takeId, .name (c.name hkind)⟩
  | call hkind hopening _ hclosing ih => exact lies_call hc hkind hopening ih hclosing
  | parentheses hkind _ hclosing ih => exact lies_parentheses hc hkind ih hclosing
  | @noArgument c => exact ⟨[], .nil c, .noArgument⟩
  | @lastArgument _ _ c₁ _ _ _ ih =>
    obtain ⟨ts, hpass, hover⟩ := ih hc
    exact ⟨_, hpass.trans c₁.passes_newlines, .lastArgument _ hover⟩
  | argument _ _ hcomma _ ihfirst ihrest => exact lies_argument hc ihfirst hcomma ihrest
  | @noParameter c => exact ⟨[], .nil c, .noParameter⟩
  | @lastParameter c _ hname _ =>
    exact ⟨_, (Cursor.passes_name hname).trans (Cursor.passes_newlines _),
      .lastParameter (c.name hname) _⟩
  | parameter _ hname hcomma _ ih => exact lies_parameter hc hname hcomma ih
  | declaration hword hname hmark _ ih => exact lies_declaration hc hword hname hmark ih
  | block hopening _ ih => exact lies_block hc hopening ih
  | @noStatement c hclosing => exact ⟨⟨[], .nil c, .noStatement⟩, hclosing⟩
  | statements _ _ _ ihfirst ihrest => exact stands_statements hc ihfirst ihrest
  | letStatement _ ih => exact ih hc
  | @returnStatement c hword _ =>
    have hpassed := Cursor.passes_word hword
    refine ⟨_, hpassed, ?_⟩
    rw [hpassed.spanSince hc]
    exact .returnStmt (c.word hword)
  | returnValue hword _ _ ih => exact lies_returnValue hc hword ih
  | ifStatement _ ih =>
    obtain ⟨ts, hpass, hover⟩ := ih hc
    exact ⟨ts, hpass, .conditional hover⟩
  | whileStatement hword _ _ ihcond ihbody => exact lies_while hc hword ihcond ihbody
  | @breakStatement c hname => exact ⟨_, Cursor.passes_of_isName hname, .breakStmt c.peek hname⟩
  | @continueStatement c hname =>
    exact ⟨_, Cursor.passes_of_isName hname, .continueStmt c.peek hname⟩
  | expressionStatement _ _ _ ih =>
    obtain ⟨ts, hpass, hover⟩ := ih hc
    refine ⟨ts, hpass, ?_⟩
    rw [hover.expression_span.2]
    exact .exprStmt hover
  | ifOnly hword _ _ _ ihcond ihbody => exact lies_ifOnly hc hword ihcond ihbody
  | ifElseIf hword _ _ helse _ ihcond ihbody ihother =>
    exact lies_ifElseIf hc hword ihcond ihbody helse ihother
  | ifElse hword _ _ helse _ _ ihcond ihbody ihother =>
    exact lies_ifElse hc hword ihcond ihbody helse ihother
  | definition hword hname hopening _ hclosing _ ihparams ihbody =>
    exact lies_definition hc hword hname hopening ihparams hclosing ihbody
  | @noItem c hend =>
    exact ⟨⟨_, c.passes_separators, .noItem c.separators.starts_no_item⟩, hend⟩
  | letItem _ _ ihfirst ihrest | fnItem _ _ ihfirst ihrest =>
    exact stands_items hc ihfirst ihrest
  | skipped hend hlet hfn _ ih => exact stands_skipped hc hend hlet hfn ih

end Parse

/-! ## Modules of a text -/

/-- A node is written with some tokens of a text, and its span says where. -/
structure Node.Exact (source : String) (x : Node) (ts : List Token) : Prop where
  /-- The tokens stand in a row in the text. -/
  row : ts <:+: (Scan.ofString source).words
  /-- The node is written with them. -/
  written : Over x.passage ts
  /-- The span starts where the first token does, and ends where the last does. -/
  span : ∃ first last, ts.head? = some first ∧ ts.getLast? = some last ∧
    x.span = ⟨first.span.start, last.span.stop, first.span.line, first.span.column⟩
  inside : ∀ y ∈ x.parts, x.span.start ≤ y.span.start ∧ y.span.stop ≤ x.span.stop
  apart : x.parts.Pairwise fun y z => y.span.stop ≤ z.span.start
  /-- The text inside of the span can be read alone. -/
  readable : (Scan.ofString (slice source x.span.start x.span.stop)).fault = none
  /-- It has the wording of the tokens. -/
  wording_eq : wording (Scan.ofString (slice source x.span.start x.span.stop)).tokens =
    ts.map (fun t => (t.kind, t.text)) ++ [(.endOfInput, "")]

/-- The tokens of a text that can be read stand one behind the other, with the end of the input
behind all of them. -/
theorem Scan.exists_words {source : String} (h : (ofString source).fault = none) :
    ∃ ts finish, (ofString source).words = ts ++ [Token.endAt finish] ∧ Token.InOrder ts ∧
      ∀ t ∈ ts, t.kind ≠ .endOfInput := by
  have hnone : source.toList = [] ++ source.toList := rfl
  have haccounts := (cuts_fromPlace .origin source.toList).accounts hnone rfl
  rw [← ofString, h] at haccounts
  obtain ⟨front, line, column, htokens, hfront⟩ := haccounts
  refine ⟨front.filter fun t => t.kind != .comment,
    ⟨source.utf8ByteSize, source.utf8ByteSize, line, column⟩, ?_, ⟨?_, ?_⟩, ?_⟩
  · rw [words, htokens, List.filter_append]
    rfl
  · exact fun t ht => hfront.nonempty t (List.mem_of_mem_filter ht)
  · exact hfront.increasing.filter _
  · exact fun t ht => hfront.kind t (List.mem_of_mem_filter ht)

/-- What is ahead of a parser at first. -/
theorem Cursor.ahead_ofTokens {s : Scan} {ts : List Token} {finish : Span}
    (h : s.words = ts ++ [Token.endAt finish]) (hts : ∀ t ∈ ts, t.kind ≠ .endOfInput) :
    (ofTokens s.tokens).ahead = ts := by
  show s.words.takeWhile _ = ts
  rw [h, List.takeWhile_append_of_pos fun t ht => by simpa using hts t ht]
  exact List.append_nil ts

/-- A module stands over the tokens that it is read from. -/
theorem Module.over_of_parse {s : Scan} {m : Module} {ts : List Token} {finish : Span}
    (hparse : parse s.tokens = .ok m) (h : s.words = ts ++ [Token.endAt finish])
    (hts : ∀ t ∈ ts, t.kind ≠ .endOfInput) (horder : Token.InOrder ts) :
    Over (.items m.body) ts := by
  obtain ⟨c, hderives, -⟩ := derives_of_parse hparse
  have hahead := Cursor.ahead_ofTokens h hts
  obtain ⟨⟨us, hpass, hover⟩, hend⟩ := hderives.stands (hahead ▸ horder)
  have hnothing : c.ahead = [] := List.isEmpty_iff.mp hend
  have hall := hpass.ahead
  rw [hahead, hnothing, List.append_nil] at hall
  rwa [hall]

/-- A node that stands over tokens in a row has an exact span. -/
theorem Node.exact_of_row {source : String} {x : Node} {before ts behind : List Token}
    (hrow : (Scan.ofString source).words = before ++ (ts ++ behind)) (horder : Token.InOrder ts)
    (hkind : ∀ t ∈ ts, t.kind ≠ .endOfInput) (h : Over x.passage ts) : x.Exact source ts := by
  obtain ⟨hne, hspan⟩ := h.node_span
  have hlaid : Laid x.parts ts := x.parts_passage ▸ h.laid
  obtain ⟨hfault, hwording⟩ := Scan.wording_slice hrow hne hkind
  rw [← hspan] at hfault hwording
  refine ⟨⟨before, behind, ?_⟩, h, ?_, fun y hy => ?_, hlaid.pairwise horder, hfault, hwording⟩
  · rw [hrow, List.append_assoc]
  · obtain ⟨t, ts, rfl⟩ := List.exists_cons_of_ne_nil hne
    exact ⟨t, ts.getLastD t, rfl, List.getLast?_cons.trans (by rw [List.getLastD_eq_getLast?]),
      hspan⟩
  · rw [hspan]
    exact hlaid.span_inside horder hy

/-- The spans of a module that is read from a text.  All tokens of the text but comments and the end
of the input stand below the module, whose statements lie one behind the other.  Every node of it,
statement or expression, is written with some of these tokens in a row: the span of the node goes
from the start of the first, on its line and in its column, to the end of the last, and the text
inside of the span, read alone, has the kinds and texts of these tokens and no others but comments
and the end.  The parts of a node lie inside of it, one behind the other. -/
theorem Module.parse_spans {source : String} {m : Module}
    (hscan : (Scan.ofString source).fault = none)
    (hparse : parse (Scan.ofString source).tokens = .ok m) :
    (∃ ts finish, (Scan.ofString source).words = ts ++ [Token.endAt finish] ∧
      Over (.items m.body) ts) ∧
    m.body.Pairwise (fun s t => s.span.stop ≤ t.span.start) ∧
    ∀ x, m.Has x → ∃ ts, x.Exact source ts := by
  obtain ⟨ts, finish, hwords, horder, hkind⟩ := Scan.exists_words hscan
  have hover := over_of_parse hparse hwords hkind horder
  refine ⟨⟨ts, finish, hwords, hover⟩, ?_, fun x hx => ?_⟩
  · exact List.pairwise_map.mp (hover.laid.pairwise horder)
  · obtain ⟨before, us, behind, rfl, hnode⟩ := hover.exists_tokens hx
    rw [List.append_assoc, List.append_assoc] at hwords
    exact ⟨us, Node.exact_of_row hwords horder.right.left
      (fun t ht => hkind t (List.mem_append_right _ (List.mem_append_left _ ht))) hnode⟩

/-- A function with a comment and a name in parentheses. -/
def Module.wrappedText : String :=
  "fn f(a) \x7b\n  if a \x7b return ( // ß\n    a) == g(a, 1) \x7d\n  else \x7b break \x7d\n\x7d\n"

/-- The name that stands in parentheses in `Module.wrappedText`. -/
def Expr.wrapped : Expr := .name ⟨26, 40, 2, 17⟩ 1 "a"

/-- The module that is read from `Module.wrappedText`. -/
def Module.wrapped : Module where
  body :=
    [.fnStmt ⟨0, 72, 1, 1⟩ "f" ["a"]
      [.ifElseStmt ⟨12, 70, 2, 3⟩ (.name ⟨15, 16, 2, 6⟩ 0 "a")
        [.returnStmt ⟨19, 51, 2, 10⟩ (some (.binary ⟨26, 51, 2, 17⟩ .eq .wrapped
          (.call ⟨44, 51, 3, 11⟩ 2 "g"
            [.name ⟨46, 47, 3, 13⟩ 3 "a", .literal ⟨49, 50, 3, 16⟩ (.int 1)])))]
        [.breakStmt ⟨63, 68, 4, 10⟩]]]
  nodeCount := 4

/-- The name is written with four tokens, and its span covers the parentheses and the comment. -/
theorem Module.wrapped_spans : (Scan.ofString wrappedText).fault = none ∧
    parse (Scan.ofString wrappedText).tokens = .ok wrapped ∧
    wrapped.Has (.expression .wrapped) ∧ slice wrappedText 26 40 = "( // ß\n    a)" ∧
    ∃ ts, (Node.expression .wrapped).Exact wrappedText ts ∧
      ts.map Token.text = ["(", "\n", "a", ")"] := by
  have hscan : (Scan.ofString wrappedText).fault = none := by decide +kernel
  have hparse : parse (Scan.ofString wrappedText).tokens = .ok wrapped := by with_unfolding_all rfl
  have hslice : slice wrappedText 26 40 = "( // ß\n    a)" := by decide +kernel
  have hfn : wrapped.Has (.statement _) := .item (List.mem_cons_self ..)
  have hif : wrapped.Has (.statement _) := hfn.part (List.mem_cons_self ..)
  have hreturn : wrapped.Has (.statement _) :=
    hif.part (List.mem_cons_of_mem _ (List.mem_cons_self ..))
  have hbinary : wrapped.Has (.expression _) := hreturn.part (List.mem_cons_self ..)
  have hname : wrapped.Has (.expression .wrapped) := hbinary.part (List.mem_cons_self ..)
  obtain ⟨ts, hexact⟩ := (parse_spans hscan hparse).2.2 _ hname
  refine ⟨hscan, hparse, hname, hslice, ts, hexact, ?_⟩
  have hread : wording (Scan.ofString "( // ß\n    a)").tokens =
      [(.operator .lParen, "("), (.newline, "\n"), (.identifier, "a"), (.operator .rParen, ")")] ++
        [(.endOfInput, "")] := by
    decide +kernel
  rw [← hslice] at hread
  have hwords := List.append_cancel_right (hexact.wording_eq.symm.trans hread)
  have htexts := congrArg (List.map Prod.snd) hwords
  rwa [List.map_map] at htexts

end Scriptlet
