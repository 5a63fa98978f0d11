import Scriptlet.Proofs.References
import Scriptlet.Proofs.WrittenExpressions
import Scriptlet.Token.Scan

/-!
# Operators and their precedence

An expression is read operator by operator, each one with the tokens behind it that bind more
tightly.  What comes out is the one tree over the tokens read in which operators of the same
precedence are grouped from the left and a tighter one below a looser one
(`Parse.binary_exact`), which is the tree that a grammar by layers derives: comparisons of sums of
products of operands (`WrittenExpr.InLayer`).

The loop over operators keeps a tree for what has been read: no operator that binds more tightly
than its root comes next, since the right operand of the root has been read as far as there are
such.
-/

namespace Scriptlet

/-! ## What a cursor has passed -/

namespace Cursor

/-- There is a token ahead if the next one is not the end of the input. -/
theorem ahead_of_kind {c : Cursor} {kind : TokenKind} (hkind : c.peek.kind = kind)
    (hne : kind ≠ .endOfInput) : c.ahead = c.peek :: c.advance.ahead := by
  cases hahead : c.ahead with
  | nil =>
    rw [peek, hahead] at hkind
    exact absurd hkind.symm hne
  | cons t rest => rw [peek_of_ahead hahead, ahead_advance hahead]

theorem kind_of_atMark {c : Cursor} {mark : Operator} (h : c.atMark mark = true) :
    c.peek.kind = .operator mark :=
  eq_of_beq h

/-- The next token, if it is a mark. -/
def mark (c : Cursor) {o : Operator} (h : c.atMark o = true) : TokenOf (.operator o) :=
  ⟨c.peek, c.kind_of_atMark h⟩

/-- A mark that is next is the first of the tokens ahead. -/
theorem ahead_of_atMark {c : Cursor} {o : Operator} (h : c.atMark o = true) :
    c.ahead = (c.mark h).token :: c.advance.ahead :=
  c.ahead_of_kind (c.kind_of_atMark h) TokenKind.noConfusion

/-- The line ends that are skipped. -/
def newlines (c : Cursor) : Newlines where
  tokens := c.ahead.takeWhile fun t => t.kind == .newline
  newline t ht := by
    have hall := List.all_eq_true.mp (@List.all_takeWhile _ (fun t => t.kind == .newline) c.ahead)
    exact eq_of_beq (hall t ht)

/-- The tokens ahead are the line ends that are skipped and what follows them. -/
theorem ahead_eq_newlines (c : Cursor) : c.ahead = c.newlines.tokens ++ c.skipNewlines.ahead := by
  rw [newlines, skipNewlines, skipWhile, List.takeWhile_append_dropWhile]

theorem ahead_advance_takeId (c : Cursor) : c.takeId.advance.ahead = c.advance.ahead := by
  obtain ⟨last, ahead, finish, nextId⟩ := c
  cases ahead <;> rfl

/-- No parenthesis opens where none is next. -/
theorem unopened_of_atMark {c : Cursor} (h : c.atMark .lParen = false) : Unopened c.ahead := by
  intro t ht hkind
  cases hahead : c.ahead with
  | nil =>
    rw [hahead] at ht
    cases ht
  | cons u rest =>
    rw [hahead] at ht
    cases ht
    rw [atMark_of_ahead hahead, hkind] at h
    exact absurd h (by decide)

end Cursor

namespace Parse

/-- An operator that is found is the next token. -/
theorem marks_of_operatorAhead? {minPrec prec : Nat} {op : BinaryOp} {c : Cursor}
    (h : operatorAhead? minPrec c = some (op, prec)) :
    c.peek.Marks op ∧ prec = op.precedence ∧ minPrec ≤ prec := by
  have hmarks : ∀ mark, BinaryOp.ofOperator? mark = some op → mark.precedence? = some prec →
      op.mark? = some mark ∧ prec = op.precedence := by
    intro mark hop hprec
    cases mark <;> cases hop <;> cases hprec <;> decide
  unfold operatorAhead? operatorOf? at h
  split at h
  · next mark hkind =>
    split at h
    · next q op' hq hop =>
      split at h
      · next hle =>
        cases h
        obtain ⟨hmark, hprec⟩ := hmarks mark hop hq
        exact ⟨⟨mark, hmark, hkind⟩, hprec, hle⟩
      · cases h
    · cases h
  · cases h

/-- No operator is found where none of the precedence stands. -/
theorem stops_of_operatorAhead? {minPrec : Nat} {c : Cursor}
    (h : operatorAhead? minPrec c = none) : Stops minPrec c.ahead := by
  intro t ht q hq
  have hpeek : c.peek = t := by rw [Cursor.peek, show c.ahead.head? = some t from ht]; rfl
  unfold operatorAhead? operatorOf? at h
  rw [hpeek] at h
  unfold Token.precedence? at hq
  split at hq
  · next mark hkind =>
    obtain ⟨op, hop⟩ : ∃ op, BinaryOp.ofOperator? mark = some op := by
      cases mark <;> first | exact ⟨_, rfl⟩ | cases hq
    simp only [hkind, show mark.precedence? = some q from hq, hop] at h
    split at h
    · cases h
    · next hle => exact Nat.lt_of_not_le hle
  · cases hq

/-! ## Trees for what is read -/

/-- A tree for an expression that has been read from some tokens on, with the uses of names in it
numbered from some number on. -/
structure Covers (w : WrittenExpr) (e : Expr) (tokens : List Token) (next : Nat) (c : Cursor) :
    Prop where
  tokens_eq : tokens = w.tokens ++ c.ahead
  shown : e.unspanned = w.expr.numbered next
  nextId : c.nextId = next + w.expr.uses
  associates : w.Associates
  called : w.endsInName = true → Unopened c.ahead

/-- Arguments likewise. -/
structure CoversAll (args : WrittenArgs) (es : List Expr) (tokens : List Token) (next : Nat)
    (c : Cursor) : Prop where
  tokens_eq : tokens = args.tokens ++ c.ahead
  shown : Expr.unspannedAll es = Expr.numberedAll args.exprs next
  nextId : c.nextId = next + Expr.usesIn args.exprs
  associates : args.Associates

/-- What is read between two cursors has a tree. -/
def Phrase.Covered (c c' : Cursor) : Phrase → Prop
  | .expression minPrec e =>
    ∃ w, Covers w e c.ahead c.nextId c' ∧ w.Binds minPrec ∧ Stops minPrec c'.ahead
  | .operators minPrec left e =>
    ∀ {w : WrittenExpr} {tokens : List Token} {next : Nat}, Covers w left tokens next c →
      w.Binds minPrec → (∀ q ∈ w.root?, Stops (q + 1) c.ahead) →
      ∃ w', Covers w' e tokens next c' ∧ w'.Binds minPrec ∧ Stops minPrec c'.ahead
  | .operand e => ∃ w, Covers w e c.ahead c.nextId c' ∧ w.root? = none
  | .arguments es => ∃ args, CoversAll args es c.ahead c.nextId c'
  | _ => True

/-- An operator is joined to what has been read before it. -/
theorem Covers.join {w w' : WrittenExpr} {left right : Expr} {tokens : List Token} {next : Nat}
    {c c' : Cursor} (hleft : Covers w left tokens next c) {op : BinaryOp} (ht : c.peek.Marks op)
    (hright : Covers w' right c.advance.ahead c.advance.nextId c')
    (hw : ∀ q ∈ w.root?, op.precedence ≤ q) (hw' : w'.Binds (op.precedence + 1)) (span : Span) :
    Covers (.binary op w c.peek w' ht) (.binary span op left right) tokens next c' := by
  have hahead : c.ahead = c.peek :: c.advance.ahead := by
    obtain ⟨mark, -, hkind⟩ := ht
    exact c.ahead_of_kind hkind TokenKind.noConfusion
  have hnext : c.advance.nextId = next + w.expr.uses := by
    rw [Cursor.nextId_advance, hleft.nextId]
  refine ⟨?_, ?_, ?_, ?_, hright.called⟩
  · rw [hleft.tokens_eq, hahead, hright.tokens_eq, WrittenExpr.tokens, List.append_assoc,
      List.cons_append]
  · rw [Expr.unspanned, WrittenExpr.expr, Expr.numbered, hleft.shown, hright.shown, hnext]
  · rw [hright.nextId, hnext, WrittenExpr.expr, Expr.uses, Nat.add_assoc]
  · rw [WrittenExpr.Associates]
    exact ⟨hw, hw'.root?, hleft.associates, hright.associates⟩

/-- A token that denotes a literal is the tree of this literal. -/
theorem covers_literal {c : Cursor} {value : Literal} (ht : c.peek.Denotes value) (span : Span) :
    Covers (.literal c.peek value ht) (.literal span value) c.ahead c.nextId c.advance := by
  have hahead : c.ahead = c.peek :: c.advance.ahead :=
    c.ahead_of_kind rfl fun h => absurd ht.startsExpr (by rw [h]; decide)
  refine ⟨?_, ?_, ?_, ?_, fun h => by cases h⟩
  · rw [hahead, WrittenExpr.tokens]; rfl
  · rw [Expr.unspanned, WrittenExpr.expr, Expr.numbered]
  · rw [Cursor.nextId_advance, WrittenExpr.expr, Expr.uses, Nat.add_zero]
  · rw [WrittenExpr.Associates]; trivial

/-- A name that no parenthesis follows is the tree of a use of this name. -/
theorem covers_name {c : Cursor} (hkind : c.peek.kind = .identifier)
    (hopening : c.advance.atMark .lParen = false) (span : Span) :
    Covers (.name ⟨c.peek, hkind⟩) (.name span c.advance.nextId c.peek.text) c.ahead c.nextId
      c.advance.takeId := by
  refine ⟨?_, ?_, ?_, ?_, fun _ => Cursor.unopened_of_atMark hopening⟩
  · rw [c.ahead_of_kind hkind TokenKind.noConfusion, WrittenExpr.tokens]; rfl
  · rw [Expr.unspanned, WrittenExpr.expr, Expr.numbered, Cursor.nextId_advance]
  · rw [Cursor.nextId_takeId, Cursor.nextId_advance, WrittenExpr.expr, Expr.uses]
  · rw [WrittenExpr.Associates]; trivial

/-- A name and arguments in parentheses are the tree of a call. -/
theorem covers_call {c c₁ : Cursor} (hkind : c.peek.kind = .identifier)
    (hopening : c.advance.atMark .lParen = true) {args : WrittenArgs} {es : List Expr}
    (hargs : CoversAll args es c.advance.takeId.advance.skipNewlines.ahead
      c.advance.takeId.advance.skipNewlines.nextId c₁)
    (hclosing : c₁.atMark .rParen = true) (span : Span) :
    Covers (.call ⟨c.peek, hkind⟩ (c.advance.mark hopening) c.advance.takeId.advance.newlines args
        (c₁.mark hclosing))
      (.call span c.advance.nextId c.peek.text es) c.ahead c.nextId c₁.advance := by
  have hnext : c.advance.takeId.advance.skipNewlines.nextId = c.nextId + 1 := by
    rw [Cursor.nextId_skipNewlines, Cursor.nextId_advance, Cursor.nextId_takeId,
      Cursor.nextId_advance]
  refine ⟨?_, ?_, ?_, ?_, fun h => by cases h⟩
  · rw [c.ahead_of_kind hkind TokenKind.noConfusion, Cursor.ahead_of_atMark hopening,
      ← Cursor.ahead_advance_takeId, Cursor.ahead_eq_newlines, hargs.tokens_eq,
      Cursor.ahead_of_atMark hclosing, WrittenExpr.tokens]
    simp
  · rw [Expr.unspanned, WrittenExpr.expr, Expr.numbered, hargs.shown, hnext, Cursor.nextId_advance]
  · rw [Cursor.nextId_advance, hargs.nextId, hnext, WrittenExpr.expr, Expr.uses, Nat.add_assoc]
  · rw [WrittenExpr.Associates]
    exact hargs.associates

/-- Parentheses around a tree are a tree of the same expression. -/
theorem covers_group {c c₁ : Cursor} (hkind : c.peek.kind = .operator .lParen) {w : WrittenExpr}
    {e : Expr} (hinner : Covers w e c.advance.skipNewlines.ahead c.advance.skipNewlines.nextId c₁)
    (hclosing : c₁.skipNewlines.atMark .rParen = true) (span : Span) :
    Covers (.group ⟨c.peek, hkind⟩ c.advance.newlines w c₁.newlines (c₁.skipNewlines.mark hclosing))
      (e.withSpan span) c.ahead c.nextId c₁.skipNewlines.advance := by
  refine ⟨?_, ?_, ?_, ?_, fun h => by cases h⟩
  · rw [c.ahead_of_kind hkind TokenKind.noConfusion, c.advance.ahead_eq_newlines, hinner.tokens_eq,
      c₁.ahead_eq_newlines, Cursor.ahead_of_atMark hclosing, WrittenExpr.tokens]
    simp
  · rw [unspanned_withSpan, hinner.shown, WrittenExpr.expr, Cursor.nextId_skipNewlines,
      Cursor.nextId_advance]
  · rw [Cursor.nextId_advance, Cursor.nextId_skipNewlines, hinner.nextId, WrittenExpr.expr,
      Cursor.nextId_skipNewlines, Cursor.nextId_advance]
  · rw [WrittenExpr.Associates]
    exact hinner.associates

/-- Nothing is the tree of no arguments. -/
theorem covers_no_arguments (c : Cursor) : CoversAll .none [] c.ahead c.nextId c := by
  refine ⟨?_, ?_, ?_, ?_⟩
  · rw [WrittenArgs.tokens, List.nil_append]
  · rw [Expr.unspannedAll, WrittenArgs.exprs, Expr.numberedAll]
  · rw [WrittenArgs.exprs, Expr.usesIn, Nat.add_zero]
  · rw [WrittenArgs.Associates]; trivial

/-- The last argument has a tree with the line ends behind it. -/
theorem covers_last_argument {w : WrittenExpr} {e : Expr} {tokens : List Token} {next : Nat}
    {c : Cursor} (hw : Covers w e tokens next c) :
    CoversAll (.last w c.newlines) [e] tokens next c.skipNewlines := by
  refine ⟨?_, ?_, ?_, ?_⟩
  · rw [hw.tokens_eq, c.ahead_eq_newlines, WrittenArgs.tokens, List.append_assoc]
  · rw [Expr.unspannedAll, Expr.unspannedAll, WrittenArgs.exprs, Expr.numberedAll,
      Expr.numberedAll, hw.shown]
  · rw [Cursor.nextId_skipNewlines, hw.nextId, WrittenArgs.exprs, Expr.usesIn, Expr.usesIn,
      Nat.add_zero]
  · rw [WrittenArgs.Associates]
    exact hw.associates

/-- An argument, a comma and the other arguments have a tree if they have trees alone. -/
theorem covers_next_argument {w : WrittenExpr} {e : Expr} {tokens : List Token} {next : Nat}
    {c c' : Cursor} (hw : Covers w e tokens next c) (hcomma : c.skipNewlines.atMark .comma = true)
    {args : WrittenArgs} {es : List Expr}
    (hargs : CoversAll args es c.skipNewlines.advance.skipNewlines.ahead
      c.skipNewlines.advance.skipNewlines.nextId c') :
    CoversAll (.more w c.newlines (c.skipNewlines.mark hcomma) c.skipNewlines.advance.newlines args)
      (e :: es) tokens next c' := by
  have hnext : c.skipNewlines.advance.skipNewlines.nextId = next + w.expr.uses := by
    rw [Cursor.nextId_skipNewlines, Cursor.nextId_advance, Cursor.nextId_skipNewlines, hw.nextId]
  refine ⟨?_, ?_, ?_, ?_⟩
  · rw [hw.tokens_eq, c.ahead_eq_newlines, Cursor.ahead_of_atMark hcomma,
      c.skipNewlines.advance.ahead_eq_newlines, hargs.tokens_eq, WrittenArgs.tokens]
    simp
  · rw [Expr.unspannedAll, WrittenArgs.exprs, Expr.numberedAll, hw.shown, hargs.shown, hnext]
  · rw [hargs.nextId, hnext, WrittenArgs.exprs, Expr.usesIn, Nat.add_assoc]
  · rw [WrittenArgs.Associates]
    exact ⟨hw.associates, hargs.associates⟩

/-- Whatever is read as an expression has a tree. -/
theorem Derives.covered {phrase : Phrase} {c c' : Cursor} (h : Derives phrase c c') :
    phrase.Covered c c' := by
  induction h with
  | expression _ _ hleft hrest =>
    obtain ⟨w, hw, hroot⟩ := hleft
    have hnone : ∀ q ∈ w.root?, False := fun q hq => by rw [hroot] at hq; cases hq
    exact hrest hw (hw.associates.binds fun q hq => (hnone q hq).elim)
      fun q hq => (hnone q hq).elim
  | noOperator hahead => exact fun hw hbinds _ => ⟨_, hw, hbinds, stops_of_operatorAhead? hahead⟩
  | operator hahead _ _ hright hrest =>
    obtain ⟨ht, rfl, hmin⟩ := marks_of_operatorAhead? hahead
    obtain ⟨w', hw', hbinds', hstops⟩ := hright
    intro w tokens next hw hbinds hroot
    -- the root of what has been read does not bind less tightly, or it would have read the operator
    have hleft : ∀ q ∈ w.root?, _ ≤ q := fun q hq =>
      Nat.le_of_lt_succ (hroot q hq _ (by
        obtain ⟨mark, -, hkind⟩ := ht
        rw [Cursor.ahead_of_kind hkind TokenKind.noConfusion]; rfl) _ ht.precedence?)
    exact hrest (hw.join ht hw' hleft hbinds' _) ⟨hmin, hbinds, hbinds'.mono (by omega)⟩
      (by rintro q ⟨⟩; exact hstops)
  | number hkind hvalue => exact ⟨_, covers_literal (.number hkind hvalue) _, rfl⟩
  | string hkind => exact ⟨_, covers_literal (.string hkind) _, rfl⟩
  | bool hkind => exact ⟨_, covers_literal (.bool hkind) _, rfl⟩
  | name hkind hopening => exact ⟨_, covers_name hkind hopening _, rfl⟩
  | call hkind hopening _ hclosing hargs =>
    obtain ⟨args, hargs⟩ := hargs
    exact ⟨_, covers_call hkind hopening hargs hclosing _, rfl⟩
  | parentheses hkind _ hclosing hinner =>
    obtain ⟨w, hw, -, -⟩ := hinner
    exact ⟨_, covers_group hkind hw hclosing _, rfl⟩
  | noArgument _ => exact ⟨.none, covers_no_arguments _⟩
  | lastArgument _ _ _ hlast =>
    obtain ⟨w, hw, -, -⟩ := hlast
    exact ⟨_, covers_last_argument hw⟩
  | argument _ _ hcomma _ hfirst hrest =>
    obtain ⟨w, hw, -, -⟩ := hfirst
    obtain ⟨args, hargs⟩ := hrest
    exact ⟨_, covers_next_argument hw hcomma hargs⟩
  | _ => trivial

end Parse

/-! ## A grammar by layers -/

/-- The layers of expressions, from the one that binds least tightly on. -/
inductive Layer where
  | comparison
  | sum
  | product
  | operand

namespace Layer

/-- The layer that the operands of a layer are taken from. -/
def tighter : Layer → Layer
  | comparison => sum
  | sum => product
  | product | operand => operand

/-- How tightly the operators of a layer bind at least. -/
def bound : Layer → Nat
  | comparison => 0
  | sum => 6
  | product => 11
  | operand => 21

/-- The operands of a layer bind at least as tightly as the layer. -/
theorem bound_le_tighter (l : Layer) : l.bound ≤ l.tighter.bound := by
  cases l <;> decide

end Layer

/-- The layer that an operation joins the expressions of. -/
def BinaryOp.layer : BinaryOp → Layer
  | .mul | .div => .product
  | .add | .sub => .sum
  | _ => .comparison

mutual

/-- The expressions of a layer: those of the next layer, and an expression of the layer joined with
one of the next layer behind it. -/
inductive WrittenExpr.InLayer : Layer → WrittenExpr → Prop
  | literal {t : Token} {value : Literal} {ht : t.Denotes value} :
      WrittenExpr.InLayer .operand (.literal t value ht)
  | name {t : TokenOf .identifier} : WrittenExpr.InLayer .operand (.name t)
  | call {callee : TokenOf .identifier} {opening : TokenOf (.operator .lParen)} {gap : Newlines}
      {args : WrittenArgs} {closing : TokenOf (.operator .rParen)} (hargs : args.InLayers) :
      WrittenExpr.InLayer .operand (.call callee opening gap args closing)
  | group {opening : TokenOf (.operator .lParen)} {gap gap' : Newlines} {inner : WrittenExpr}
      {closing : TokenOf (.operator .rParen)} (hinner : WrittenExpr.InLayer .comparison inner) :
      WrittenExpr.InLayer .operand (.group opening gap inner gap' closing)
  | single {l : Layer} {w : WrittenExpr} (h : WrittenExpr.InLayer l.tighter w) :
      WrittenExpr.InLayer l w
  | joined {op : BinaryOp} {left right : WrittenExpr} {t : Token} {ht : t.Marks op}
      (hleft : WrittenExpr.InLayer op.layer left)
      (hright : WrittenExpr.InLayer op.layer.tighter right) :
      WrittenExpr.InLayer op.layer (.binary op left t right ht)

inductive WrittenArgs.InLayers : WrittenArgs → Prop
  | none : WrittenArgs.InLayers .none
  | last {arg : WrittenExpr} {gap : Newlines} (harg : WrittenExpr.InLayer .comparison arg) :
      WrittenArgs.InLayers (.last arg gap)
  | more {arg : WrittenExpr} {gap gap' : Newlines} {comma : TokenOf (.operator .comma)}
      {rest : WrittenArgs} (harg : WrittenExpr.InLayer .comparison arg)
      (hrest : WrittenArgs.InLayers rest) :
      WrittenArgs.InLayers (.more arg gap comma gap' rest)

end

namespace WrittenExpr

/-- What is in a layer is in every layer that binds less tightly. -/
theorem InLayer.looser {l l' : Layer} (hl : l.bound ≤ l'.bound) {w : WrittenExpr}
    (h : InLayer l' w) : InLayer l w := by
  cases l <;> cases l' <;>
    first
    | exact h
    | exact .single h
    | exact .single (.single h)
    | exact .single (.single (.single h))
    | exact absurd hl (by decide)

/-- An operation is in the first layer that its precedence reaches. -/
theorem bound_le_layer {op : BinaryOp} {l : Layer} (h : l.bound ≤ op.precedence) :
    l.bound ≤ op.layer.bound := by
  revert h
  cases op <;> cases l <;> decide

/-- An operation binds at least as tightly as its layer. -/
theorem layer_bound_le (op : BinaryOp) : op.layer.bound ≤ op.precedence := by
  cases op <;> decide

/-- The next layer starts right above the operations of a layer. -/
theorem tighter_bound {t : Token} {op : BinaryOp} (ht : t.Marks op) :
    op.layer.tighter.bound = op.precedence + 1 := by
  obtain ⟨mark, hmark, -⟩ := ht
  cases op <;> cases hmark <;> decide

/-- The operations that reach a layer bind at least as tightly as those of the layer. -/
theorem Binds.le_root? {op : BinaryOp} {t : Token} (ht : t.Marks op) {w : WrittenExpr}
    (h : w.Binds op.layer.bound) : ∀ q ∈ w.root?, op.precedence ≤ q := by
  cases w with
  | literal | name | call | group => rintro q ⟨⟩
  | binary op' left t' right ht' =>
    rintro q ⟨⟩
    have hle : op.layer.bound ≤ op'.precedence := h.1
    obtain ⟨mark, hmark, -⟩ := ht
    obtain ⟨mark', hmark', -⟩ := ht'
    revert hle
    cases op <;> cases hmark <;> cases op' <;> cases hmark' <;> decide

end WrittenExpr

mutual

/-- What is nested as its operators bind is derived by the grammar. -/
theorem WrittenExpr.inLayer : ∀ {w : WrittenExpr} {l : Layer}, w.Associates → w.Binds l.bound →
    w.InLayer l
  | .literal _ _ _, l, _, _ => WrittenExpr.InLayer.literal.looser (by cases l <;> decide)
  | .name _, l, _, _ => WrittenExpr.InLayer.name.looser (by cases l <;> decide)
  | .call _ _ _ args _, l, h, _ => by
    rw [WrittenExpr.Associates] at h
    exact (WrittenExpr.InLayer.call (WrittenArgs.inLayers h)).looser (by cases l <;> decide)
  | .group _ _ inner _ _, l, h, _ => by
    rw [WrittenExpr.Associates] at h
    have hinner := WrittenExpr.inLayer (l := .comparison) h (h.binds fun _ _ => Nat.zero_le _)
    exact (WrittenExpr.InLayer.group hinner).looser (by cases l <;> decide)
  | .binary op left t right ht, l, h, hbinds => by
    rw [WrittenExpr.Associates] at h
    obtain ⟨hl, hr, hleft, hright⟩ := h
    refine WrittenExpr.InLayer.looser (WrittenExpr.bound_le_layer hbinds.1) (.joined ?_ ?_)
    · exact WrittenExpr.inLayer hleft ((hleft.binds hl).mono (WrittenExpr.layer_bound_le op))
    · exact WrittenExpr.inLayer hright (hright.binds (by rwa [WrittenExpr.tighter_bound ht]))

/-- Arguments that are nested as their operators bind are layered. -/
theorem WrittenArgs.inLayers : ∀ {args : WrittenArgs}, args.Associates → args.InLayers
  | .none, _ => .none
  | .last _ _, h => by
    rw [WrittenArgs.Associates] at h
    exact .last (WrittenExpr.inLayer h (h.binds fun _ _ => Nat.zero_le _))
  | .more _ _ _ _ _, h => by
    rw [WrittenArgs.Associates] at h
    exact .more (WrittenExpr.inLayer h.1 (h.1.binds fun _ _ => Nat.zero_le _))
      (WrittenArgs.inLayers h.2)

end

mutual

/-- What the grammar derives is nested as its operators bind. -/
theorem WrittenExpr.InLayer.associates : ∀ {l : Layer} {w : WrittenExpr}, w.InLayer l →
    w.Associates ∧ w.Binds l.bound
  | _, _, .literal => by rw [WrittenExpr.Associates]; exact ⟨trivial, trivial⟩
  | _, _, .name => by rw [WrittenExpr.Associates]; exact ⟨trivial, trivial⟩
  | _, _, .call hargs => by rw [WrittenExpr.Associates]; exact ⟨hargs.associates, trivial⟩
  | _, _, .group hinner => by rw [WrittenExpr.Associates]; exact ⟨hinner.associates.1, trivial⟩
  | l, _, .single h => ⟨h.associates.1, h.associates.2.mono l.bound_le_tighter⟩
  | _, _, @WrittenExpr.InLayer.joined op _ _ _ ht hleft hright => by
    obtain ⟨hl, hlbinds⟩ := hleft.associates
    obtain ⟨hr, hrbinds⟩ := hright.associates
    have hroot : ∀ q ∈ _, op.precedence + 1 ≤ q := WrittenExpr.tighter_bound ht ▸ hrbinds.root?
    rw [WrittenExpr.Associates]
    exact ⟨⟨hlbinds.le_root? ht, hroot, hl, hr⟩, WrittenExpr.layer_bound_le op, hlbinds,
      hrbinds.mono op.layer.bound_le_tighter⟩

/-- Arguments that are layered are nested as their operators bind. -/
theorem WrittenArgs.InLayers.associates : ∀ {args : WrittenArgs}, args.InLayers → args.Associates
  | _, .none => by rw [WrittenArgs.Associates]; trivial
  | _, .last harg => by rw [WrittenArgs.Associates]; exact harg.associates.1
  | _, .more harg hrest => by
    rw [WrittenArgs.Associates]
    exact ⟨harg.associates.1, hrest.associates⟩

end

/-- The grammar derives what is nested as its operators bind. -/
theorem WrittenExpr.inLayer_comparison_iff {w : WrittenExpr} :
    w.InLayer .comparison ↔ w.Associates :=
  ⟨fun h => h.associates.1, fun h => WrittenExpr.inLayer h (h.binds fun _ _ => Nat.zero_le _)⟩

/-! ## Reading expressions -/

/-- If an expression is read whose operators have a least precedence, there is a tree over exactly
the tokens read that has the expression in it; it is nested as its operators bind, and no operator
of the precedence is left behind it.  There is no other such tree at the front of the tokens, and
over the tokens read it is the only tree that is nested as its operators bind, and the only one that
the grammar by layers derives. -/
theorem Parse.binary_exact {depth minPrec : Nat} {c c' : Cursor} {e : Expr}
    (h : binary depth minPrec c = .ok (e, c')) :
    ∃ w : WrittenExpr, c.ahead = w.tokens ++ c'.ahead ∧
      e.unspanned = w.expr.numbered c.nextId ∧ w.Complete minPrec c'.ahead ∧
      (∀ (w' : WrittenExpr) (rest : List Token), c.ahead = w'.tokens ++ rest →
        w'.Complete minPrec rest → w' = w ∧ rest = c'.ahead) ∧
      ∀ w' : WrittenExpr, w'.tokens = w.tokens →
        (w'.Associates ↔ w' = w) ∧ (w'.InLayer .comparison ↔ w' = w) := by
  obtain ⟨w, hw, hbinds, hstops⟩ := (derives_binary depth h).covered
  have hcomplete : w.Complete minPrec c'.ahead :=
    { binds := hbinds, associates := hw.associates, stops := hstops, called := hw.called }
  refine ⟨w, hw.tokens_eq, hw.shown, hcomplete, ?_, ?_⟩
  · intro w' rest htokens hw'
    exact WrittenExpr.eq_of_tokens hw' hcomplete (htokens.symm.trans hw.tokens_eq)
  · intro w' htokens
    have hunique : w'.Associates ↔ w' = w := by
      constructor
      · intro hw'
        exact (WrittenExpr.eq_of_tokens hw'.complete_nil hw.associates.complete_nil
          (congrArg (· ++ []) htokens)).1
      · rintro rfl
        exact hw.associates
    exact ⟨hunique, WrittenExpr.inLayer_comparison_iff.trans hunique⟩

/-- Differences, a product of a sum in parentheses and a call, and a comparison behind them. -/
def Parse.chained : Cursor :=
  .ofTokens (Scan.ofString "a - b - (\n c + 1\n) * f(x,\n) < d").tokens

/-- Of `Parse.chained`, what binds at least as tightly as a sum is read, up to the comparison. -/
theorem Parse.chained_exact : ∃ e c', binary 40 10 chained = .ok (e, c') ∧
    c'.peek.kind = .operator .lt ∧
    ∃ w : WrittenExpr, chained.ahead = w.tokens ++ c'.ahead ∧
      e.unspanned = w.expr.numbered chained.nextId ∧ w.Complete 10 c'.ahead ∧
      (∀ (w' : WrittenExpr) (rest : List Token), chained.ahead = w'.tokens ++ rest →
        w'.Complete 10 rest → w' = w ∧ rest = c'.ahead) ∧
      ∀ w' : WrittenExpr, w'.tokens = w.tokens →
        (w'.Associates ↔ w' = w) ∧ (w'.InLayer .comparison ↔ w' = w) := by
  have hkind : (binary 40 10 chained).toOption.map (fun read => read.2.peek.kind) =
      some (.operator .lt) := by
    decide +kernel
  cases hread : binary 40 10 chained with
  | error fault =>
    rw [hread] at hkind
    cases hkind
  | ok read =>
    rw [hread] at hkind
    exact ⟨read.1, read.2, rfl, Option.some.inj hkind, binary_exact hread⟩

end Scriptlet
