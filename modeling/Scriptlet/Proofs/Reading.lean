import Scriptlet.Proofs.Rendering

/-!
# Reading expressions

Reading the tokens of an expression gives that expression, numbered from the next number on
(`Parse.reads_expr`).  The tokens may stand before any others that cannot belong to the expression.
Operators are read in a loop whose state is the operand read so far, so the induction shows how
`binary` comes to `operators` behind the tokens of an expression (`Parse.reaches_expr`).  Four
levels of depth for each token are enough.
-/

namespace Scriptlet

/-! ## Cursors -/

namespace Cursor

variable {c : Cursor} {t : Token} {rest : List Token}

/-- The next token is the first of those ahead. -/
theorem peek_of_ahead (h : c.ahead = t :: rest) : c.peek = t := by
  rw [peek, h]
  rfl

theorem ahead_advance (h : c.ahead = t :: rest) : c.advance.ahead = rest := by
  rw [advance, h]

@[simp] theorem nextId_advance (c : Cursor) : c.advance.nextId = c.nextId := by
  unfold advance
  split <;> rfl

@[simp] theorem nextId_takeId (c : Cursor) : c.takeId.nextId = c.nextId + 1 := rfl

/-- Nothing is skipped before a token that does not satisfy the condition. -/
theorem skipWhile_eq_self {p : Token → Bool} (h : c.ahead = t :: rest) (ht : p t = false) :
    c.skipWhile p = c := by
  rw [skipWhile, h, List.takeWhile_cons, List.dropWhile_cons, ht]
  cases c
  cases h
  rfl

/-- A token that is as expected is read. -/
theorem expect_of_ahead {p : Token → Bool} (h : c.ahead = t :: rest) (ht : p t = true)
    (what : Expectation) : c.expect p what = .ok (t, c.advance) := by
  rw [expect, peek_of_ahead h, if_pos ht]

/-- A mark that is expected is read. -/
theorem expectMark_of_ahead {mark : Operator} (h : c.ahead = t :: rest)
    (ht : t.kind = .operator mark) : c.expectMark mark = .ok (t, c.advance) := by
  unfold expectMark
  apply expect_of_ahead h
  exact beq_iff_eq.mpr ht

/-- A reserved word that is expected is read. -/
theorem expectWord_of_ahead {word : Keyword} (h : c.ahead = t :: rest)
    (ht : t.kind = .keyword word) : c.expectWord word = .ok (t, c.advance) := by
  unfold expectWord
  apply expect_of_ahead h
  exact beq_iff_eq.mpr ht

/-- A name that is expected is read. -/
theorem expectName_of_ahead (h : c.ahead = t :: rest) (ht : t.kind = .identifier)
    (what : Expectation) : c.expectName what = .ok (t, c.advance) := by
  unfold expectName
  apply expect_of_ahead h
  exact beq_iff_eq.mpr ht

/-- Whether a mark is next is decided by the kind of the first token. -/
theorem atMark_of_ahead (h : c.ahead = t :: rest) (mark : Operator) :
    c.atMark mark = (t.kind == .operator mark) := by
  rw [atMark, peek_of_ahead h, Token.isOperator]

/-- Whether a reserved word is next is decided by the kind of the first token. -/
theorem atWord_of_ahead (h : c.ahead = t :: rest) (word : Keyword) :
    c.atWord word = (t.kind == .keyword word) := by
  rw [atWord, peek_of_ahead h, Token.isKeyword]

end Cursor

namespace Parse

/-! ## What is read -/

/-- Reading succeeds, with what is read shown in a given way, before some tokens and with the next
number. -/
def Reads {α : Type} (shown : α → α) (result : Except SyntaxFault (α × Cursor)) (a : α) (next : Nat)
    (rest : List Token) : Prop :=
  ∃ a' c, result = .ok (a', c) ∧ shown a' = a ∧ c.nextId = next ∧ c.ahead = rest

/-! ## Tokens that end an expression -/

/-- What can stand behind an expression whose operators bind at least as tightly as a given
precedence: no parenthesis that opens, and no operator that binds more tightly than that. -/
def Ends (p : Nat) (rest : List Token) : Prop :=
  ∀ t ∈ rest.head?, t.kind ≠ .operator .lParen ∧
    ∀ mark q, t.kind = .operator mark → mark.precedence? = some q → q ≤ p

/-- What ends an expression ends the expressions that bind more tightly. -/
theorem Ends.mono {p q : Nat} {rest : List Token} (h : Ends p rest) (hpq : p ≤ q) : Ends q rest :=
  fun t ht => ⟨(h t ht).1, fun mark r hmark hr => Nat.le_trans ((h t ht).2 mark r hmark hr) hpq⟩

/-- A token that is no operator between operands ends an expression. -/
theorem ends_of_kind {t : Token} {kind : TokenKind} (ht : t.kind = kind)
    (hkind : ∀ mark, kind = .operator mark → mark ≠ .lParen ∧ mark.precedence? = none)
    (p : Nat) (rest : List Token) : Ends p (t :: rest) := by
  intro u hu
  cases hu
  rw [ht]
  refine ⟨fun h => (hkind _ h).1 rfl, fun mark q hmark hq => ?_⟩
  rw [(hkind mark hmark).2] at hq
  cases hq

/-- Marks that are no binary operators end every expression, but for an opening parenthesis. -/
theorem ends_of_operator {t : Token} {mark : Operator} (ht : t.kind = .operator mark)
    (hmark : mark ≠ .lParen ∧ mark.precedence? = none) (rest : List Token) :
    Ends 0 (t :: rest) := by
  apply ends_of_kind ht
  intro mark' h
  cases h
  exact hmark

/-- Precedences are positive. -/
theorem precedence_pos {mark : Operator} {q : Nat} (h : mark.precedence? = some q) : 0 < q := by
  cases mark <;> cases h <;> decide

/-- No operator is read behind an expression that has ended. -/
theorem operatorAhead?_of_ends {p minPrec : Nat} {c : Cursor} (h : Ends p c.ahead)
    (hp : p < minPrec ∨ p = 0) : operatorAhead? minPrec c = none := by
  unfold operatorAhead? operatorOf?
  cases hahead : c.ahead with
  | nil => simp [Cursor.peek, hahead, Token.endAt]
  | cons t rest =>
    rw [Cursor.peek_of_ahead hahead]
    split
    · next mark hmark =>
      split
      · next q op hq hop =>
        have hle := (h t (by rw [hahead]; rfl)).2 mark q hmark hq
        have hpos := precedence_pos hq
        exact if_neg (by omega)
      · rfl
    · rfl

/-- The loop over operators ends behind an expression that has ended. -/
theorem reads_operators {p minPrec d : Nat} {c : Cursor} {e : Expr} (h : Ends p c.ahead)
    (hp : p < minPrec ∨ p = 0) (hd : 0 < d) : operators d minPrec e c = .ok (e, c) := by
  obtain ⟨d, rfl⟩ := Nat.exists_eq_succ_of_ne_zero (Nat.ne_of_gt hd)
  rw [operators, operatorAhead?_of_ends h hp]

/-! ## Operands -/

/-- Without spans, changing the span of an expression changes nothing. -/
theorem unspanned_withSpan (span : Span) (e : Expr) :
    (e.withSpan span).unspanned = e.unspanned := by
  cases e <;> rw [Expr.withSpan] <;> simp only [Expr.unspanned]

section Operands

variable {d : Nat} {c : Cursor} {t : Token} {rest : List Token}

/-- Nothing is skipped before the tokens of an expression. -/
theorem skipNewlines_of_startsExpr (hahead : c.ahead = t :: rest) (ht : t.kind.startsExpr = true) :
    c.skipNewlines = c :=
  c.skipWhile_eq_self hahead (Token.kind_beq_eq_false ht rfl)

/-- There are no line ends to skip in front of a mark. -/
theorem skipNewlines_of_operator {mark : Operator} (hahead : c.ahead = t :: rest)
    (ht : t.kind = .operator mark) : c.skipNewlines = c :=
  c.skipWhile_eq_self hahead (by rw [ht]; rfl)

/-- A literal is read up to its span. -/
theorem reads_literal {value : Literal} (hahead : c.ahead = t :: rest)
    (h : primary (d + 1) c = .ok (.literal t.span value, c.advance)) :
    Reads Expr.unspanned (primary (d + 1) c) (.literal .zero value) c.nextId rest :=
  ⟨.literal t.span value, c.advance, h, by rw [Expr.unspanned], c.nextId_advance,
    c.ahead_advance hahead⟩

/-- A name that no parenthesis follows is read as a use with the next number. -/
theorem reads_name (hahead : c.ahead = t :: rest) (ht : t.kind = .identifier)
    (hrest : ∀ u ∈ rest.head?, u.kind ≠ .operator .lParen) :
    Reads Expr.unspanned (primary (d + 1) c) (.name .zero c.nextId t.text) (c.nextId + 1) rest := by
  have hadvance := c.ahead_advance hahead
  have hmark : c.advance.atMark .lParen = false := by
    cases rest with
    | nil => simp [Cursor.atMark, Cursor.peek, hadvance, Token.endAt, Token.isOperator]
    | cons u rest =>
      rw [Cursor.atMark_of_ahead hadvance, beq_eq_false_iff_ne]
      exact hrest u rfl
  refine ⟨.name t.span c.nextId t.text, c.advance.takeId, ?_, by rw [Expr.unspanned], by simp,
    hadvance⟩
  simp [primary, c.peek_of_ahead hahead, ht, hmark]

/-- A name that a parenthesis follows is read as a call, which takes its number before its arguments
do. -/
theorem reads_call {u : Token} {us : List Token} {args : List Expr} {next : Nat} {closing : Token}
    (hahead : c.ahead = t :: u :: us) (ht : t.kind = .identifier)
    (hu : u.kind = .operator .lParen) (hclosing : closing.kind = .operator .rParen)
    (hargs : Reads Expr.unspannedAll (arguments d c.advance.takeId.advance.skipNewlines) args next
      (closing :: rest)) :
    Reads Expr.unspanned (primary (d + 1) c) (.call .zero c.nextId t.text args) next rest := by
  have hmark : c.advance.atMark .lParen = true := by
    rw [Cursor.atMark_of_ahead (c.ahead_advance hahead), hu]
    rfl
  obtain ⟨args', c', hread, hargs', hnext, hrest⟩ := hargs
  refine ⟨.call (c'.advance.spanSince t.span) c.nextId t.text args', c'.advance, ?_, ?_, ?_,
    c'.ahead_advance hrest⟩
  · simp only [primary, c.peek_of_ahead hahead, ht, hmark, if_pos, hread, Cursor.nextId_advance]
    simp only [bind, Except.bind, c'.expectMark_of_ahead hrest hclosing]
    rfl
  · rw [Expr.unspanned, hargs']
  · rw [c'.nextId_advance, hnext]

/-- Parentheses leave only their span on what is read inside of them. -/
theorem reads_parentheses {ts : List Token} {e : Expr} {next : Nat} {closing : Token}
    (hahead : c.ahead = t :: ts) (ht : t.kind = .operator .lParen)
    (hclosing : closing.kind = .operator .rParen)
    (hinner : Reads Expr.unspanned (binary d 0 c.advance.skipNewlines) e next (closing :: rest)) :
    Reads Expr.unspanned (primary (d + 1) c) e next rest := by
  obtain ⟨e', c', hread, he', hnext, hrest⟩ := hinner
  have hskip := skipNewlines_of_operator hrest hclosing
  refine ⟨e'.withSpan (c'.advance.spanSince t.span), c'.advance, ?_, ?_, ?_,
    c'.ahead_advance hrest⟩
  · simp only [primary, c.peek_of_ahead hahead, ht, hread]
    simp only [bind, Except.bind, hskip, c'.expectMark_of_ahead hrest hclosing]
    rfl
  · rw [unspanned_withSpan, he']
  · rw [c'.nextId_advance, hnext]

end Operands

/-! ## Expressions -/

/-- Reading an expression comes to the loop over operators behind its tokens, with not much less
depth left. -/
def Reaches (depth minPrec : Nat) (c : Cursor) (used : Nat) (e : Expr) (next : Nat)
    (rest : List Token) : Prop :=
  ∃ d e' c', binary depth minPrec c = operators d minPrec e' c' ∧ depth ≤ d + used ∧
    e'.unspanned = e ∧ c'.nextId = next ∧ c'.ahead = rest

/-- An operand alone is where the loop over operators starts. -/
theorem reaches_of_primary {depth used minPrec : Nat} {c : Cursor} {e : Expr} {next : Nat}
    {rest : List Token} (hdepth : 4 * used ≤ depth) (hused : 0 < used)
    (h : ∀ d, depth = d + 2 → Reads Expr.unspanned (primary (d + 1) c) e next rest) :
    Reaches depth minPrec c used e next rest := by
  obtain ⟨d, rfl⟩ : ∃ d, depth = d + 2 := ⟨depth - 2, by omega⟩
  obtain ⟨e', c', hread, he', hnext, hrest⟩ := h d rfl
  refine ⟨d + 1, e', c', ?_, by omega, he', hnext, hrest⟩
  rw [binary, hread]
  rfl

/-- The loop over operators stops at what ends the expression, so what has been read so far is the
whole. -/
theorem Reaches.reads {depth minPrec used p : Nat} {c : Cursor} {e : Expr} {next : Nat}
    {rest : List Token} (h : Reaches depth minPrec c used e next rest) (hends : Ends p rest)
    (hp : p < minPrec ∨ p = 0) (hused : used < depth) :
    Reads Expr.unspanned (binary depth minPrec c) e next rest := by
  obtain ⟨d, e', c', heq, hdepth, he', hnext, hrest⟩ := h
  rw [← hrest] at hends
  exact ⟨e', c', by rw [heq, reads_operators hends hp (by omega)], he', hnext, hrest⟩

/-- The mark of an operation is read as that operation. -/
theorem mark?_spec {op : BinaryOp} {mark : Operator} (h : op.mark? = some mark) :
    BinaryOp.ofOperator? mark = some op ∧ mark.precedence? = some op.precedence ∧
      mark ≠ .lParen := by
  cases op <;> cases h <;> decide

/-- The mark of an operator ends what binds more tightly than the operator. -/
theorem ends_of_mark {op : BinaryOp} {mark : Operator} (hmark : op.mark? = some mark) {t : Token}
    (ht : t.kind = .operator mark) (rest : List Token) : Ends op.precedence (t :: rest) := by
  obtain ⟨-, hprec, hne⟩ := mark?_spec hmark
  intro u hu
  cases hu
  rw [ht]
  refine ⟨fun h => hne (TokenKind.operator.inj h), fun mark' q hmark' hq => ?_⟩
  cases hmark'
  rw [hprec] at hq
  cases hq
  exact Nat.le_refl _

/-- An operator and its right operand are read, and the loop goes on. -/
theorem operators_of_mark {op : BinaryOp} {mark : Operator} (hmark : op.mark? = some mark)
    {d minPrec : Nat} {c : Cursor} {t : Token} {ts rest : List Token} {left right : Expr}
    {next : Nat} (hahead : c.ahead = t :: ts) (ht : t.kind = .operator mark)
    (hmin : minPrec ≤ op.precedence)
    (hright : Reads Expr.unspanned (binary d (op.precedence + 1) c.advance) right next rest) :
    ∃ e c', operators (d + 1) minPrec left c = operators d minPrec e c' ∧
      e.unspanned = .binary .zero op left.unspanned right ∧ c'.nextId = next ∧ c'.ahead = rest := by
  obtain ⟨hop, hprec, -⟩ := mark?_spec hmark
  obtain ⟨right', c', hread, hright', hnext, hrest⟩ := hright
  refine ⟨.binary (left.span.merge right'.span) op left right', c', ?_, ?_, hnext, hrest⟩
  · have hfound : operatorAhead? minPrec c = some (op, op.precedence) := by
      simp only [operatorAhead?, operatorOf?, c.peek_of_ahead hahead, ht, hop, hprec, if_pos hmin]
    rw [operators, hfound]
    simp only [hread, bind, Except.bind]
  · rw [Expr.unspanned, hright']

/-! ## Arguments -/

section Arguments

variable {d : Nat} {c : Cursor} {t : Token} {ts rest : List Token} {e : Expr} {next : Nat}

/-- A closing parenthesis ends the arguments before the first one. -/
theorem reads_no_arguments (hahead : c.ahead = t :: rest) (ht : t.kind = .operator .rParen) :
    Reads Expr.unspannedAll (arguments (d + 1) c) [] c.nextId (t :: rest) := by
  have hmark : c.atMark .rParen = true := by
    rw [Cursor.atMark_of_ahead hahead, ht]
    rfl
  exact ⟨[], c, by rw [arguments, if_pos hmark], by rw [Expr.unspannedAll], rfl, hahead⟩

/-- The last argument is followed by the closing parenthesis. -/
theorem reads_last_argument {closing : Token} (hfirst : c.atMark .rParen = false)
    (harg : Reads Expr.unspanned (binary d 0 c) e next (closing :: rest))
    (hclosing : closing.kind = .operator .rParen) :
    Reads Expr.unspannedAll (arguments (d + 1) c) [e] next (closing :: rest) := by
  obtain ⟨e', c', hread, he', hnext, hrest⟩ := harg
  have hcomma : c'.atMark .comma = false := by
    rw [Cursor.atMark_of_ahead hrest, hclosing]
    rfl
  refine ⟨[e'], c', ?_, by rw [Expr.unspannedAll, Expr.unspannedAll, he'], hnext, hrest⟩
  rw [arguments, hfirst, hread]
  simp [bind, Except.bind, skipNewlines_of_operator hrest hclosing, hcomma, pure, Except.pure]

/-- A comma is followed by the other arguments. -/
theorem reads_next_argument {comma : Token} {us : List Token} {es : List Expr} {next' : Nat}
    (hfirst : c.atMark .rParen = false)
    (harg : Reads Expr.unspanned (binary d 0 c) e next (comma :: us))
    (hcomma : comma.kind = .operator .comma)
    (hargs : ∀ c' : Cursor, c'.nextId = next → c'.ahead = us →
      Reads Expr.unspannedAll (arguments d c'.skipNewlines) es next' rest) :
    Reads Expr.unspannedAll (arguments (d + 1) c) (e :: es) next' rest := by
  obtain ⟨e', c', hread, he', hnext, hrest⟩ := harg
  have hat : c'.atMark .comma = true := by
    rw [Cursor.atMark_of_ahead hrest, hcomma]
    rfl
  obtain ⟨es', c'', hread', hes', hnext', hrest'⟩ :=
    hargs c'.advance (by rw [c'.nextId_advance, hnext]) (c'.ahead_advance hrest)
  refine ⟨e' :: es', c'', ?_, by rw [Expr.unspannedAll, he', hes'], hnext', hrest'⟩
  rw [arguments, hfirst, hread]
  simp [bind, Except.bind, skipNewlines_of_operator hrest hcomma, hat, hread', pure, Except.pure]

end Arguments

/-- The first token of some arguments and of what closes them. -/
theorem skipNewlines_of_rendersAll {es : List Expr} {ts rest : List Token} {closing : Token}
    {c : Cursor} (h : Expr.RendersAll es ts) (hclosing : closing.kind = .operator .rParen)
    (hahead : c.ahead = ts ++ closing :: rest) : c.skipNewlines = c := by
  cases h with
  | nil => exact skipNewlines_of_operator hahead hclosing
  | one h =>
    obtain ⟨t, us, rfl, ht⟩ := h.exists_first
    exact skipNewlines_of_startsExpr hahead ht
  | cons h _ _ =>
    obtain ⟨t, us, rfl, ht⟩ := h.exists_first
    exact skipNewlines_of_startsExpr hahead ht

/-- No expression starts with a closing parenthesis. -/
theorem not_atMark_rParen {p : Nat} {e : Expr} {ts rest : List Token} {c : Cursor}
    (h : e.Renders p ts) (hahead : c.ahead = ts ++ rest) : c.atMark .rParen = false := by
  obtain ⟨t, us, rfl, ht⟩ := h.exists_first
  rw [Cursor.atMark_of_ahead hahead]
  exact Token.kind_beq_eq_false ht rfl

mutual

/-- Reading the tokens of an expression comes to the loop over operators behind them. -/
theorem reaches_expr : ∀ {p : Nat} {e : Expr} {ts : List Token}, e.Renders p ts →
    ∀ {minPrec depth : Nat} {c : Cursor} {rest : List Token}, minPrec ≤ p → Ends p rest →
      c.ahead = ts ++ rest → 4 * ts.length ≤ depth →
      Reaches depth minPrec c ts.length (e.numbered c.nextId) (c.nextId + e.uses) rest
  | _, _, _, .number ht hvalue, minPrec, depth, c, rest, _, _, hahead, hdepth => by
    rw [Expr.numbered, Expr.uses]
    refine reaches_of_primary hdepth Nat.one_pos fun d _ => reads_literal hahead ?_
    simp only [primary, c.peek_of_ahead hahead, ht, hvalue]
  | _, _, _, .string ht, minPrec, depth, c, rest, _, _, hahead, hdepth => by
    rw [Expr.numbered, Expr.uses]
    refine reaches_of_primary hdepth Nat.one_pos fun d _ => reads_literal hahead ?_
    simp only [primary, c.peek_of_ahead hahead, ht]
  | _, _, _, @Expr.Renders.bool _ _ b _ ht, minPrec, depth, c, rest, _, _, hahead, hdepth => by
    rw [Expr.numbered, Expr.uses]
    refine reaches_of_primary hdepth Nat.one_pos fun d _ => reads_literal hahead ?_
    cases b <;> simp only [primary, c.peek_of_ahead hahead, ht] <;> rfl
  | _, _, _, .name ht, minPrec, depth, c, rest, _, hends, hahead, hdepth => by
    rw [Expr.numbered, Expr.uses]
    exact reaches_of_primary hdepth Nat.one_pos fun d _ =>
      reads_name hahead ht fun u hu => (hends u hu).1
  | _, _, _, @Expr.Renders.call _ _ _ args t opening closing ts ht hopening hargs hclosing, minPrec,
      depth, c, rest, _, _, hahead, hdepth => by
    rw [Expr.numbered, Expr.uses]
    refine reaches_of_primary hdepth (Nat.succ_pos _) fun d hd => ?_
    refine reads_call hahead ht hopening hclosing ?_
    have hopen : c.advance.takeId.ahead = opening :: (ts ++ [closing] ++ rest) :=
      c.ahead_advance hahead
    have hinside : c.advance.takeId.advance.ahead = ts ++ closing :: rest := by
      rw [Cursor.ahead_advance hopen, List.append_assoc]
      rfl
    have hdepth' : 4 * ts.length + 2 ≤ d := by
      simp at hdepth
      omega
    have hread := reads_arguments hargs hclosing hinside hdepth'
    rw [skipNewlines_of_rendersAll hargs hclosing hinside]
    rwa [Cursor.nextId_advance, Cursor.nextId_takeId, Cursor.nextId_advance, Nat.add_assoc] at hread
  | _, _, _, @Expr.Renders.binary _ _ op mark left right t ls rs hp hmark hleft ht hright, minPrec,
      depth, c, rest, hmin, hends, hahead, hdepth => by
    rw [List.length_append, List.length_cons] at hdepth ⊢
    rw [List.append_assoc] at hahead
    -- the left operand, and the loop over operators at the mark
    obtain ⟨d, left', c', heq, hd, hleft', hnext, hahead'⟩ := reaches_expr hleft
      (Nat.le_trans hmin hp) (ends_of_mark hmark ht (rs ++ rest)) hahead
      (show 4 * ls.length ≤ depth by omega)
    obtain ⟨d, rfl⟩ : ∃ d', d = d' + 1 := ⟨d - 1, by omega⟩
    -- the right operand, behind which the loop ends for it
    have hrest : Ends op.precedence rest := hends.mono hp
    have hreach := reaches_expr hright (Nat.le_refl _) (hrest.mono (Nat.le_succ _))
      (c'.ahead_advance hahead') (show 4 * rs.length ≤ d by omega)
    have hright' := hreach.reads hrest (.inl (Nat.lt_succ_self _)) (by omega)
    obtain ⟨e, c'', hloop, he, hnext', hahead''⟩ :=
      operators_of_mark hmark hahead' ht (Nat.le_trans hmin hp) hright'
    refine ⟨d, e, c'', heq.trans hloop, by omega, ?_, ?_, hahead''⟩
    · rw [he, hleft', c'.nextId_advance, hnext, Expr.numbered]
    · rw [hnext', c'.nextId_advance, hnext, Expr.uses, Nat.add_assoc]
  | _, _, _, @Expr.Renders.parentheses _ span op left right opening closing ts hp hopening hinner
      hclosing, minPrec, depth, c, rest, _, _, hahead, hdepth => by
    refine reaches_of_primary hdepth (Nat.succ_pos _) fun d hd => ?_
    refine reads_parentheses hahead hopening hclosing ?_
    have hinside : c.advance.ahead = ts ++ closing :: rest := by
      have hbehind : c.advance.ahead = ts ++ [closing] ++ rest := c.ahead_advance hahead
      rw [hbehind, List.append_assoc]
      rfl
    have hends := ends_of_operator hclosing (by decide) rest
    have hdepth' : 4 * ts.length < d := by
      simp at hdepth
      omega
    have hread := (reaches_expr hinner (Nat.le_refl 0) hends hinside (Nat.le_of_lt hdepth')).reads
      hends (.inr rfl) (by omega)
    obtain ⟨t, us, rfl, ht⟩ := hinner.exists_first
    rw [skipNewlines_of_startsExpr hinside ht]
    rwa [c.nextId_advance] at hread

/-- The tokens of some arguments are read as these arguments, numbered from the next number on. -/
theorem reads_arguments : ∀ {es : List Expr} {ts : List Token}, Expr.RendersAll es ts →
    ∀ {depth : Nat} {c : Cursor} {closing : Token} {rest : List Token},
      closing.kind = .operator .rParen → c.ahead = ts ++ closing :: rest →
      4 * ts.length + 2 ≤ depth →
      Reads Expr.unspannedAll (arguments depth c) (Expr.numberedAll es c.nextId)
        (c.nextId + Expr.usesIn es) (closing :: rest)
  | _, _, .nil, depth, c, closing, rest, hclosing, hahead, hdepth => by
    obtain ⟨d, rfl⟩ : ∃ d, depth = d + 1 := ⟨depth - 1, by omega⟩
    rw [Expr.numberedAll, Expr.usesIn]
    exact reads_no_arguments hahead hclosing
  | _, ts, .one h, depth, c, closing, rest, hclosing, hahead, hdepth => by
    obtain ⟨d, rfl⟩ : ∃ d, depth = d + 1 := ⟨depth - 1, by omega⟩
    have hdepth' : 4 * ts.length < d := by omega
    have hends := ends_of_operator hclosing (by decide) rest
    have hread := (reaches_expr h (Nat.le_refl 0) hends hahead (Nat.le_of_lt hdepth')).reads
      hends (.inr rfl) (by omega)
    rw [Expr.numberedAll, Expr.numberedAll, Expr.usesIn, Expr.usesIn]
    exact reads_last_argument (not_atMark_rParen h hahead) hread hclosing
  | _, _, @Expr.RendersAll.cons e e' es comma ts us h hcomma hargs, depth, c, closing, rest,
      hclosing, hahead, hdepth => by
    obtain ⟨d, rfl⟩ : ∃ d, depth = d + 1 := ⟨depth - 1, by omega⟩
    rw [List.length_append, List.length_cons] at hdepth
    rw [List.append_assoc] at hahead
    have hdepth' : 4 * ts.length < d := by omega
    have hends := ends_of_operator hcomma (by decide) (us ++ closing :: rest)
    have hread := (reaches_expr h (Nat.le_refl 0) hends hahead (Nat.le_of_lt hdepth')).reads
      hends (.inr rfl) (by omega)
    rw [Expr.numberedAll, Expr.usesIn, ← Nat.add_assoc]
    refine reads_next_argument (not_atMark_rParen h hahead) hread hcomma fun c' hnext hahead' => ?_
    rw [skipNewlines_of_rendersAll hargs hclosing hahead', ← hnext]
    exact reads_arguments hargs hclosing hahead' (by omega)

end

/-- Reading the tokens of an expression gives the expression. -/
theorem reads_expr {e : Expr} {ts rest : List Token} {depth : Nat} {c : Cursor}
    (h : e.Renders 0 ts) (hends : Ends 0 rest) (hahead : c.ahead = ts ++ rest)
    (hdepth : 4 * ts.length ≤ depth) :
    Reads Expr.unspanned (binary depth 0 c) (e.numbered c.nextId) (c.nextId + e.uses) rest := by
  have hpos : 0 < ts.length := by
    obtain ⟨t, us, rfl, -⟩ := h.exists_first
    exact Nat.succ_pos _
  exact (reaches_expr h (Nat.le_refl 0) hends hahead hdepth).reads hends (.inr rfl) (by omega)

end Parse

end Scriptlet
