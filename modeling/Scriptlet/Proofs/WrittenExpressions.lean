import Scriptlet.Proofs.Reading

/-!
# Expressions as they are written

A `WrittenExpr` is an expression with all of its tokens: the marks of its operators, its
parentheses, the commas between its arguments, and the line ends that may stand inside of
parentheses.  `WrittenExpr.tokens` reads them in order and `WrittenExpr.expr` forgets them.

`WrittenExpr.Binds` and `WrittenExpr.Associates` say how operators outside of parentheses may be
nested: those to the left of an operator bind at least as tightly as it does, those to the right
more tightly.  A tree that is nested in this way is given by its tokens
(`WrittenExpr.eq_of_tokens`).  The proof lays a tree out as a first operand and the links behind it:
the tokens determine this chain, and the chain determines the tree.
-/

namespace Scriptlet

/-! ## Tokens of an expression -/

/-- A token that a literal is written as. -/
inductive Token.Denotes (t : Token) : Literal → Prop
  | number {value : Literal} (ht : t.kind = .number)
      (hvalue : Literal.ofNumber? t.text = some value) : Denotes t value
  | string (ht : t.kind = .string) : Denotes t (.str t.text)
  | bool {b : Bool} (ht : t.kind = .keyword (if b then .trueWord else .falseWord)) :
      Denotes t (.bool b)

/-- A token that is the mark of an operation. -/
def Token.Marks (t : Token) (op : BinaryOp) : Prop :=
  ∃ mark, op.mark? = some mark ∧ t.kind = .operator mark

/-- How tightly a token binds the operands on its two sides, if it is the mark of an operation. -/
def Token.precedence? (t : Token) : Option Nat :=
  match t.kind with
  | .operator mark => mark.precedence?
  | _ => none

/-- A token of a given kind. -/
@[ext] structure TokenOf (kind : TokenKind) where
  token : Token
  kind_eq : token.kind = kind

/-- Line ends in a row. -/
structure Newlines where
  tokens : List Token
  newline : ∀ t ∈ tokens, t.kind = .newline

/-- A literal can start an expression. -/
theorem Token.Denotes.startsExpr {t : Token} {value : Literal} (h : t.Denotes value) :
    t.kind.startsExpr = true := by
  cases h with
  | number ht _ => rw [ht]; rfl
  | string ht => rw [ht]; rfl
  | @bool b ht => rw [ht]; cases b <;> rfl

/-- A literal is neither a name nor a parenthesis. -/
theorem Token.Denotes.kind_ne {t : Token} {value : Literal} (h : t.Denotes value) :
    t.kind ≠ .identifier ∧ t.kind ≠ .operator .lParen := by
  cases h with
  | number ht _ => simp [ht]
  | string ht => simp [ht]
  | bool ht => simp [ht]

/-- A token is written for one literal only. -/
theorem Token.Denotes.eq {t : Token} {value value' : Literal} (h : t.Denotes value)
    (h' : t.Denotes value') : value = value' := by
  cases h with
  | number ht hvalue =>
    cases h' with
    | number _ hvalue' => exact Option.some.inj (hvalue.symm.trans hvalue')
    | string ht' => simp [ht] at ht'
    | bool ht' => simp [ht] at ht'
  | string ht =>
    cases h' with
    | number ht' _ => simp [ht] at ht'
    | string _ => rfl
    | bool ht' => simp [ht] at ht'
  | @bool b ht =>
    cases h' with
    | number ht' _ => simp [ht] at ht'
    | string ht' => simp [ht] at ht'
    | @bool b' ht' => cases b <;> cases b' <;> simp_all

/-- The mark of an operation binds as tightly as the operation. -/
theorem Token.Marks.precedence? {t : Token} {op : BinaryOp} (h : t.Marks op) :
    t.precedence? = some op.precedence := by
  obtain ⟨mark, hmark, ht⟩ := h
  simp only [Token.precedence?, ht, (Parse.mark?_spec hmark).2.1]

/-- The mark of an operation opens no parenthesis. -/
theorem Token.Marks.kind_ne {t : Token} {op : BinaryOp} (h : t.Marks op) :
    t.kind ≠ .operator .lParen := by
  obtain ⟨mark, hmark, ht⟩ := h
  rw [ht]
  exact fun h => (Parse.mark?_spec hmark).2.2 (TokenKind.operator.inj h)

/-- A token is the mark of one operation at most. -/
theorem Token.Marks.eq {t : Token} {op op' : BinaryOp} (h : t.Marks op) (h' : t.Marks op') :
    op = op' := by
  obtain ⟨mark, hmark, ht⟩ := h
  obtain ⟨mark', hmark', ht'⟩ := h'
  cases TokenKind.operator.inj (ht.symm.trans ht')
  exact Option.some.inj
    ((Parse.mark?_spec hmark).1.symm.trans (Parse.mark?_spec hmark').1)

/-- No line end stands at the front. -/
def Unbroken (rest : List Token) : Prop := ∀ t ∈ rest.head?, t.kind ≠ .newline

/-- A mark is no line end. -/
theorem TokenOf.unbroken {mark : Operator} (t : TokenOf (.operator mark)) (rest : List Token) :
    Unbroken (t.token :: rest) := by
  rintro u ⟨⟩
  rw [t.kind_eq]
  exact TokenKind.noConfusion

/-- Line ends are told apart from what follows them. -/
theorem Newlines.eq_of_append {gap gap' : Newlines} {rest rest' : List Token}
    (hrest : Unbroken rest) (hrest' : Unbroken rest')
    (h : gap.tokens ++ rest = gap'.tokens ++ rest') : gap = gap' ∧ rest = rest' := by
  obtain ⟨ts, hts⟩ := gap
  obtain ⟨ts', hts'⟩ := gap'
  dsimp only at h
  suffices hsplit : ts = ts' ∧ rest = rest' by
    obtain ⟨rfl, rfl⟩ := hsplit
    exact ⟨rfl, rfl⟩
  induction ts generalizing ts' with
  | nil =>
    cases ts' with
    | nil => exact ⟨rfl, h⟩
    | cons u us' =>
      exact absurd (hts' u (List.mem_cons_self ..))
        (hrest u (by rw [← List.nil_append rest, h]; rfl))
  | cons u us ih =>
    cases ts' with
    | nil =>
      exact absurd (hts u (List.mem_cons_self ..))
        (hrest' u (by rw [← List.nil_append rest', ← h]; rfl))
    | cons u' us' =>
      obtain ⟨rfl, htail⟩ := List.cons.inj h
      obtain ⟨rfl, hrest⟩ := ih (fun t ht => hts t (List.mem_cons_of_mem _ ht)) us'
        (fun t ht => hts' t (List.mem_cons_of_mem _ ht)) htail
      exact ⟨rfl, hrest⟩

/-! ## Trees -/

mutual

/-- An expression with all of its tokens. -/
inductive WrittenExpr where
  | literal (t : Token) (value : Literal) (ht : t.Denotes value)
  | name (t : TokenOf .identifier)
  | call (callee : TokenOf .identifier) (opening : TokenOf (.operator .lParen)) (gap : Newlines)
      (args : WrittenArgs) (closing : TokenOf (.operator .rParen))
  | group (opening : TokenOf (.operator .lParen)) (gap : Newlines) (inner : WrittenExpr)
      (gap' : Newlines) (closing : TokenOf (.operator .rParen))
  | binary (op : BinaryOp) (left : WrittenExpr) (t : Token) (right : WrittenExpr) (ht : t.Marks op)

/-- The arguments of a call up to the parenthesis behind them; a comma may stand behind the last
one. -/
inductive WrittenArgs where
  | none
  | last (arg : WrittenExpr) (gap : Newlines)
  | more (arg : WrittenExpr) (gap : Newlines) (comma : TokenOf (.operator .comma)) (gap' : Newlines)
      (rest : WrittenArgs)

end

mutual

/-- The tokens of an expression, in order. -/
def WrittenExpr.tokens : WrittenExpr → List Token
  | .literal t _ _ => [t]
  | .name t => [t.token]
  | .call callee opening gap args closing =>
    callee.token :: opening.token :: (gap.tokens ++ (args.tokens ++ [closing.token]))
  | .group opening gap inner gap' closing =>
    opening.token :: (gap.tokens ++ (inner.tokens ++ (gap'.tokens ++ [closing.token])))
  | .binary _ left t right _ => left.tokens ++ t :: right.tokens

def WrittenArgs.tokens : WrittenArgs → List Token
  | .none => []
  | .last arg gap => arg.tokens ++ gap.tokens
  | .more arg gap comma gap' rest =>
    arg.tokens ++ (gap.tokens ++ comma.token :: (gap'.tokens ++ rest.tokens))

end

mutual

/-- The expression that is written. -/
@[simp] def WrittenExpr.expr : WrittenExpr → Expr
  | .literal _ value _ => .literal .zero value
  | .name t => .name .zero 0 t.token.text
  | .call callee _ _ args _ => .call .zero 0 callee.token.text args.exprs
  | .group _ _ inner _ _ => inner.expr
  | .binary op left _ right _ => .binary .zero op left.expr right.expr

@[simp] def WrittenArgs.exprs : WrittenArgs → List Expr
  | .none => []
  | .last arg _ => [arg.expr]
  | .more arg _ _ _ rest => arg.expr :: rest.exprs

end

namespace WrittenExpr

/-- The precedence of the operator that joins the whole expression, if it is neither a single
operand nor in parentheses. -/
def root? : WrittenExpr → Option Nat
  | .binary op _ _ _ _ => some op.precedence
  | _ => none

/-- Every operator outside of parentheses binds at least as tightly as a given precedence. -/
def Binds (p : Nat) : WrittenExpr → Prop
  | .binary op left _ right _ => p ≤ op.precedence ∧ left.Binds p ∧ right.Binds p
  | _ => True

/-- Whether the last token is a name that is not called. -/
def endsInName : WrittenExpr → Bool
  | .name _ => true
  | .binary _ _ _ right _ => right.endsInName
  | _ => false

end WrittenExpr

mutual

/-- Everywhere in an expression, a left operand that is joined by an operator outside of
parentheses binds at least as tightly as the operator behind it, and such a right operand more
tightly than the operator before it. -/
def WrittenExpr.Associates : WrittenExpr → Prop
  | .literal _ _ _ | .name _ => True
  | .call _ _ _ args _ => args.Associates
  | .group _ _ inner _ _ => inner.Associates
  | .binary op left _ right _ =>
    (∀ q ∈ left.root?, op.precedence ≤ q) ∧ (∀ q ∈ right.root?, op.precedence < q) ∧
      left.Associates ∧ right.Associates

def WrittenArgs.Associates : WrittenArgs → Prop
  | .none => True
  | .last arg _ => arg.Associates
  | .more arg _ _ _ rest => arg.Associates ∧ rest.Associates

end

/-! ## What stands behind an expression -/

/-- No operator of at least a given precedence stands at the front. -/
def Stops (p : Nat) (rest : List Token) : Prop :=
  ∀ t ∈ rest.head?, ∀ q ∈ t.precedence?, q < p

/-- No parenthesis opens at the front. -/
def Unopened (rest : List Token) : Prop := ∀ t ∈ rest.head?, t.kind ≠ .operator .lParen

/-- Neither of them stands behind an expression inside of parentheses: there are line ends, and then
a parenthesis that closes or a comma. -/
theorem stops_of_newlines {mark : Operator} (hmark : mark ≠ .lParen ∧ mark.precedence? = none)
    (gap : Newlines) (t : TokenOf (.operator mark)) (p : Nat) (rest : List Token) :
    Stops p (gap.tokens ++ t.token :: rest) ∧ Unopened (gap.tokens ++ t.token :: rest) := by
  obtain ⟨ts, hts⟩ := gap
  obtain ⟨t, ht⟩ := t
  have hfirst : ∀ u ∈ (ts ++ t :: rest).head?, u.kind = .newline ∨ u.kind = .operator mark := by
    cases ts with
    | nil => rintro u ⟨⟩; exact .inr ht
    | cons v vs => rintro u ⟨⟩; exact .inl (hts v (List.mem_cons_self ..))
  constructor
  · intro u hu q hq
    rcases hfirst u hu with hkind | hkind
    · simp [Token.precedence?, hkind] at hq
    · simp [Token.precedence?, hkind, hmark.2] at hq
  · intro u hu
    rcases hfirst u hu with hkind | hkind
    · simp [hkind]
    · simp [hkind, hmark.1]

namespace WrittenExpr

/-- The first token of an expression. -/
theorem exists_first : ∀ w : WrittenExpr, ∃ t ts, w.tokens = t :: ts ∧ t.kind.startsExpr = true
  | .literal t _ ht => ⟨t, [], by rw [tokens], ht.startsExpr⟩
  | .name t => ⟨t.token, [], by rw [tokens], by rw [t.kind_eq]; rfl⟩
  | .call callee _ _ _ _ => ⟨callee.token, _, by rw [tokens], by rw [callee.kind_eq]; rfl⟩
  | .group opening _ _ _ _ => ⟨opening.token, _, by rw [tokens], by rw [opening.kind_eq]; rfl⟩
  | .binary _ left t right _ => by
    obtain ⟨u, us, hus, hu⟩ := exists_first left
    exact ⟨u, us ++ t :: right.tokens, by rw [tokens, hus, List.cons_append], hu⟩

/-- No expression starts with a line end. -/
theorem unbroken (w : WrittenExpr) (rest : List Token) : Unbroken (w.tokens ++ rest) := by
  obtain ⟨t, ts, hts, ht⟩ := w.exists_first
  rw [hts]
  rintro u ⟨⟩ hu
  rw [hu] at ht
  cases ht

/-- An expression does not start with a parenthesis that closes. -/
theorem tokens_append_ne (w : WrittenExpr) (closing : TokenOf (.operator .rParen))
    (rest rest' : List Token) : w.tokens ++ rest ≠ closing.token :: rest' := by
  obtain ⟨t, ts, hts, ht⟩ := w.exists_first
  intro h
  rw [hts] at h
  rw [(List.cons.inj h).1, closing.kind_eq] at ht
  cases ht

end WrittenExpr

/-- Neither do the arguments of a call, with the closing parenthesis behind them. -/
theorem WrittenArgs.unbroken (args : WrittenArgs) (closing : TokenOf (.operator .rParen))
    (rest : List Token) : Unbroken (args.tokens ++ closing.token :: rest) := by
  cases args with
  | none => exact closing.unbroken rest
  | last arg gap =>
    rw [tokens, List.append_assoc]
    exact arg.unbroken _
  | more arg gap comma gap' others =>
    rw [tokens, List.append_assoc]
    exact arg.unbroken _

namespace WrittenExpr

/-! ## Precedences -/

/-- What binds tightly binds loosely. -/
theorem Binds.mono {p q : Nat} (hpq : p ≤ q) : ∀ {w : WrittenExpr}, w.Binds q → w.Binds p
  | .literal _ _ _, _ | .name _, _ | .call _ _ _ _ _, _ | .group _ _ _ _ _, _ => trivial
  | .binary _ _ _ _ _, ⟨hop, hleft, hright⟩ =>
    ⟨Nat.le_trans hpq hop, hleft.mono hpq, hright.mono hpq⟩

/-- The operator that joins the whole expression is one of those outside of parentheses. -/
theorem Binds.root? {p : Nat} {w : WrittenExpr} (h : w.Binds p) : ∀ q ∈ w.root?, p ≤ q := by
  cases w with
  | literal | name | call | group => rintro q ⟨⟩
  | binary =>
    rintro q ⟨⟩
    exact h.1

/-- The operator at the root binds least tightly. -/
theorem Associates.binds {p : Nat} : ∀ {w : WrittenExpr}, w.Associates →
    (∀ q ∈ w.root?, p ≤ q) → w.Binds p
  | .literal _ _ _, _, _ | .name _, _, _ | .call _ _ _ _ _, _, _ | .group _ _ _ _ _, _, _ => trivial
  | .binary op left _ right _, h, hroot => by
    rw [WrittenExpr.Associates] at h
    obtain ⟨hleft, hright, hl, hr⟩ := h
    have hop : p ≤ op.precedence := hroot _ rfl
    exact ⟨hop, hl.binds fun q hq => Nat.le_trans hop (hleft q hq),
      hr.binds fun q hq => Nat.le_trans hop (Nat.le_of_lt (hright q hq))⟩

end WrittenExpr

/-! ## Chains of operands -/

/-- An operator outside of parentheses with the operand behind it. -/
structure Link where
  op : BinaryOp
  mark : Token
  marks : mark.Marks op
  operand : WrittenExpr

/-- The tokens of links. -/
def Link.tokensAll (links : List Link) : List Token :=
  links.flatMap fun k => k.mark :: k.operand.tokens

namespace WrittenExpr

/-- The first operand. -/
def first : WrittenExpr → WrittenExpr
  | .binary _ left _ _ _ => left.first
  | w => w

/-- The links behind the first operand. -/
def links : WrittenExpr → List Link
  | .binary op left t right ht => left.links ++ ⟨op, t, ht, right.first⟩ :: right.links
  | _ => []

/-- An expression without operators outside of parentheses. -/
def IsOperand (w : WrittenExpr) : Prop := w.root? = none ∧ w.Associates

/-- The tokens of an expression are those of its first operand and of its links, whatever its
shape. -/
theorem tokens_eq : ∀ w : WrittenExpr, w.tokens = w.first.tokens ++ Link.tokensAll w.links
  | .literal _ _ _ | .name _ | .call _ _ _ _ _ | .group _ _ _ _ _ => (List.append_nil _).symm
  | .binary op left t right ht => by
    rw [tokens, tokens_eq left, tokens_eq right]
    simp [first, links, Link.tokensAll]

/-- The first operand of a chain has no operators outside of parentheses. -/
theorem isOperand_first : ∀ {w : WrittenExpr}, w.Associates → w.first.IsOperand
  | .literal _ _ _, h | .name _, h | .call _ _ _ _ _, h | .group _ _ _ _ _, h => ⟨rfl, h⟩
  | .binary _ _ _ _ _, h => by
    rw [WrittenExpr.Associates] at h
    rw [first]
    exact isOperand_first h.2.2.1

/-- Neither do the operands of the links. -/
theorem isOperand_of_mem_links : ∀ {w : WrittenExpr}, w.Associates →
    ∀ k ∈ w.links, k.operand.IsOperand
  | .literal _ _ _, _, _, hk | .name _, _, _, hk | .call _ _ _ _ _, _, _, hk
  | .group _ _ _ _ _, _, _, hk => by simp [links] at hk
  | .binary _ left _ right _, h, k, hk => by
    rw [WrittenExpr.Associates] at h
    rw [links] at hk
    rcases List.mem_append.1 hk with hk | hk
    · exact isOperand_of_mem_links h.2.2.1 k hk
    · rcases List.mem_cons.1 hk with rfl | hk
      · exact isOperand_first h.2.2.2
      · exact isOperand_of_mem_links h.2.2.2 k hk

/-- The operators of the links are those outside of parentheses. -/
theorem Binds.of_mem_links {p : Nat} : ∀ {w : WrittenExpr}, w.Binds p →
    ∀ k ∈ w.links, p ≤ k.op.precedence
  | .literal _ _ _, _, _, hk | .name _, _, _, hk | .call _ _ _ _ _, _, _, hk
  | .group _ _ _ _ _, _, _, hk => by simp [links] at hk
  | .binary _ _ _ _ _, ⟨hop, hleft, hright⟩, k, hk => by
    rw [links] at hk
    rcases List.mem_append.1 hk with hk | hk
    · exact hleft.of_mem_links k hk
    · rcases List.mem_cons.1 hk with rfl | hk
      · exact hop
      · exact hright.of_mem_links k hk

/-- An expression without links is its first operand. -/
theorem eq_first_of_links : ∀ {w : WrittenExpr}, w.links = [] → w = w.first
  | .literal _ _ _, _ | .name _, _ | .call _ _ _ _ _, _ | .group _ _ _ _ _, _ => rfl
  | .binary _ _ _ _ _, h => absurd h (by simp [links])

/-- Two places at which a chain is split, the first before the second: the operator of the first one
is to the left of the second one, and that of the second to the right of the first one. -/
theorem absurd_of_split {left right : WrittenExpr} {k k' : Link} {before mid behind : List Link}
    (hl : left.links = before ++ k :: mid) (hr : right.links = mid ++ k' :: behind)
    (hright : right.Binds (k.op.precedence + 1)) (hleft : left.Binds k'.op.precedence) :
    False := by
  have h := hright.of_mem_links k' (by rw [hr]; simp)
  have h' := hleft.of_mem_links k (by rw [hl]; simp)
  omega

/-- Two splits of a chain at a link are the same, or one of them is before the other. -/
theorem split_cases {before before' behind behind' : List Link} {k k' : Link}
    (h : before ++ k :: behind = before' ++ k' :: behind') :
    (before = before' ∧ k = k' ∧ behind = behind') ∨
      (∃ mid, before' = before ++ k :: mid ∧ behind = mid ++ k' :: behind') ∨
      ∃ mid, before = before' ++ k' :: mid ∧ behind' = mid ++ k :: behind := by
  rcases List.append_eq_append_iff.1 h with ⟨mid, hmid, hmid'⟩ | ⟨mid, hmid, hmid'⟩
  · cases mid with
    | nil =>
      obtain ⟨rfl, rfl⟩ := List.cons.inj hmid'
      exact .inl ⟨by simpa using hmid.symm, rfl, rfl⟩
    | cons k'' mid =>
      obtain ⟨rfl, rfl⟩ := List.cons.inj hmid'
      exact .inr (.inl ⟨mid, hmid, rfl⟩)
  · cases mid with
    | nil =>
      obtain ⟨rfl, rfl⟩ := List.cons.inj hmid'
      exact .inl ⟨by simpa using hmid, rfl, rfl⟩
    | cons k'' mid =>
      obtain ⟨rfl, rfl⟩ := List.cons.inj hmid'
      exact .inr (.inr ⟨mid, hmid, rfl⟩)

/-- The chain determines the tree. -/
theorem eq_of_links : ∀ {w w' : WrittenExpr}, w.Associates → w'.Associates →
    w.first = w'.first → w.links = w'.links → w = w'
  | .literal _ _ _, _, _, _, hfirst, hlinks | .name _, _, _, _, hfirst, hlinks
  | .call _ _ _ _ _, _, _, _, hfirst, hlinks | .group _ _ _ _ _, _, _, _, hfirst, hlinks =>
    hfirst.trans (eq_first_of_links hlinks.symm).symm
  | .binary op left t right ht, w', h, h', hfirst, hlinks => by
    cases w' with
    | literal | name | call | group => simp [links] at hlinks
    | binary op' left' t' right' ht' =>
      rw [WrittenExpr.Associates] at h h'
      rw [first, first] at hfirst
      rw [links, links] at hlinks
      obtain ⟨hl, hr, hleft, hright⟩ := h
      obtain ⟨hl', hr', hleft', hright'⟩ := h'
      rcases split_cases hlinks with
        ⟨hbefore, hk, hbehind⟩ | ⟨mid, hmid, hmid'⟩ | ⟨mid, hmid, hmid'⟩
      · obtain ⟨rfl, rfl, hoperand⟩ := Link.mk.inj hk
        rw [eq_of_links hleft hleft' hfirst hbefore, eq_of_links hright hright' hoperand hbehind]
      · exact (absurd_of_split hmid hmid' (hright.binds hr) (hleft'.binds hl')).elim
      · exact (absurd_of_split hmid hmid' (hright'.binds hr') (hleft.binds hl)).elim

/-! ## The tokens determine the chain -/

/-- Whether an operand with links behind it ends in a name that is not called. -/
def chainEndsInName (o : WrittenExpr) : List Link → Bool
  | [] => o.endsInName
  | k :: rest => chainEndsInName k.operand rest

/-- Only the last operand of a chain decides whether it ends in a name. -/
theorem chainEndsInName_append (o : WrittenExpr) (k : Link) (rest : List Link) :
    ∀ before : List Link,
      chainEndsInName o (before ++ k :: rest) = chainEndsInName k.operand rest
  | [] => rfl
  | k' :: before => chainEndsInName_append k'.operand k rest before

/-- Whether an expression ends in a name is seen from its chain. -/
theorem chainEndsInName_links : ∀ w : WrittenExpr,
    chainEndsInName w.first w.links = w.endsInName
  | .literal _ _ _ | .name _ | .call _ _ _ _ _ | .group _ _ _ _ _ => rfl
  | .binary _ _ _ right _ => by
    rw [first, links, chainEndsInName_append, endsInName]
    exact chainEndsInName_links right

/-- A chain is followed by tokens that cannot belong to it. -/
structure ChainComplete (p : Nat) (o : WrittenExpr) (links : List Link) (rest : List Token) :
    Prop where
  first : o.IsOperand
  others : ∀ k ∈ links, k.operand.IsOperand
  stops : Stops p rest
  called : chainEndsInName o links = true → Unopened rest

/-- A tree is nested as its operators bind, and it is followed by tokens that cannot belong to
it. -/
structure Complete (p : Nat) (w : WrittenExpr) (rest : List Token) : Prop where
  binds : w.Binds p
  associates : w.Associates
  stops : Stops p rest
  called : w.endsInName = true → Unopened rest

/-- The chain of a tree is the front of every chain with the same tokens. -/
def LeadsChains (w : WrittenExpr) : Prop :=
  ∀ {p : Nat} {o : WrittenExpr} {links : List Link} {rest rest' : List Token}, w.Associates →
    w.Binds p → (w.endsInName = true → Unopened rest) → ChainComplete p o links rest' →
    w.tokens ++ rest = o.tokens ++ (Link.tokensAll links ++ rest') →
    w.first = o ∧ ∃ more, links = w.links ++ more ∧ rest = Link.tokensAll more ++ rest'

/-- The chain of a complete tree is complete. -/
theorem Complete.chain {p : Nat} {w : WrittenExpr} {rest : List Token} (h : w.Complete p rest) :
    ChainComplete p w.first w.links rest where
  first := isOperand_first h.associates
  others := isOperand_of_mem_links h.associates
  stops := h.stops
  called hends := h.called (by rwa [chainEndsInName_links] at hends)

/-- At the end of all tokens, whatever is nested as its operators bind is complete. -/
theorem Associates.complete_nil {w : WrittenExpr} (hw : w.Associates) : w.Complete 0 [] where
  binds := hw.binds fun _ _ => Nat.zero_le _
  associates := hw
  stops := by rintro t ⟨⟩
  called := by rintro - t ⟨⟩

/-- Inside of parentheses, whatever is nested as its operators bind is complete. -/
theorem complete_of_newlines {w : WrittenExpr} (hw : w.Associates) {mark : Operator}
    (hmark : mark ≠ .lParen ∧ mark.precedence? = none) (gap : Newlines)
    (t : TokenOf (.operator mark)) (rest : List Token) :
    w.Complete 0 (gap.tokens ++ t.token :: rest) where
  binds := hw.binds fun _ _ => Nat.zero_le _
  associates := hw
  stops := (stops_of_newlines hmark gap t 0 rest).1
  called _ := (stops_of_newlines hmark gap t 0 rest).2

/-- A tree and what is behind it are given by their tokens. -/
theorem LeadsChains.eq {p : Nat} {w w' : WrittenExpr} {rest rest' : List Token}
    (hw : w.LeadsChains) (h : w.Complete p rest) (h' : w'.Complete p rest')
    (htokens : w.tokens ++ rest = w'.tokens ++ rest') : w = w' ∧ rest = rest' := by
  rw [tokens_eq w', List.append_assoc] at htokens
  obtain ⟨hfirst, more, hlinks, hrest⟩ := hw h.associates h.binds h.called h'.chain htokens
  cases more with
  | nil =>
    rw [List.append_nil] at hlinks
    exact ⟨eq_of_links h.associates h'.associates hfirst hlinks.symm, hrest⟩
  | cons k more =>
    -- the next link of the second tree could be linked to the first one
    have hlt := h.stops k.mark (by rw [hrest]; rfl) _ k.marks.precedence?
    have hle := h'.binds.of_mem_links k (by rw [hlinks]; simp)
    omega

/-- What an operand that begins with a token can be, with the tokens behind the first one. -/
inductive Begins (t : Token) (tail rest : List Token) : WrittenExpr → Prop
  | literal {value : Literal} (ht : t.Denotes value) (h : tail = rest) :
      Begins t tail rest (.literal t value ht)
  | name (ht : t.kind = .identifier) (h : tail = rest) : Begins t tail rest (.name ⟨t, ht⟩)
  | call {opening : TokenOf (.operator .lParen)} {gap : Newlines} {args : WrittenArgs}
      {closing : TokenOf (.operator .rParen)} (ht : t.kind = .identifier)
      (hargs : args.Associates)
      (h : tail = opening.token :: (gap.tokens ++ (args.tokens ++ closing.token :: rest))) :
      Begins t tail rest (.call ⟨t, ht⟩ opening gap args closing)
  | group {gap gap' : Newlines} {inner : WrittenExpr} {closing : TokenOf (.operator .rParen)}
      (ht : t.kind = .operator .lParen) (hinner : inner.Associates)
      (h : tail = gap.tokens ++ (inner.tokens ++ (gap'.tokens ++ closing.token :: rest))) :
      Begins t tail rest (.group ⟨t, ht⟩ gap inner gap' closing)

/-- An operand is of the kind that its first token decides. -/
theorem IsOperand.begins {o : WrittenExpr} (ho : o.IsOperand) {t : Token} {tail rest : List Token}
    (h : t :: tail = o.tokens ++ rest) : Begins t tail rest o := by
  have hassociates := ho.2
  cases o with
  | literal t' value ht =>
    rw [tokens] at h
    obtain ⟨rfl, htail⟩ := List.cons.inj h
    exact .literal ht htail
  | name t' =>
    rw [tokens] at h
    obtain ⟨rfl, htail⟩ := List.cons.inj h
    exact .name t'.kind_eq htail
  | call callee opening gap args closing =>
    rw [WrittenExpr.Associates] at hassociates
    simp only [tokens, List.cons_append, List.append_assoc, List.nil_append] at h
    obtain ⟨rfl, htail⟩ := List.cons.inj h
    exact .call callee.kind_eq hassociates htail
  | group opening gap inner gap' closing =>
    rw [WrittenExpr.Associates] at hassociates
    simp only [tokens, List.cons_append, List.append_assoc, List.nil_append] at h
    obtain ⟨rfl, htail⟩ := List.cons.inj h
    exact .group opening.kind_eq hassociates htail
  | binary => cases ho.1

/-- No parenthesis opens behind a name that is an operand, be it the last one or not. -/
theorem ChainComplete.unopened {p : Nat} {t : TokenOf .identifier} {links : List Link}
    {rest : List Token} (h : ChainComplete p (name t) links rest) :
    Unopened (Link.tokensAll links ++ rest) := by
  cases links with
  | nil => exact h.called rfl
  | cons k links =>
    rintro t ⟨⟩
    exact k.marks.kind_ne

/-- A literal is the front of every chain that starts with its token. -/
theorem leadsChains_literal {t : Token} {value : Literal} (ht : t.Denotes value) :
    (literal t value ht).LeadsChains := by
  intro p o links rest rest' _ _ _ ho h
  rw [tokens, List.singleton_append] at h
  cases ho.first.begins h with
  | literal ht' hrest =>
    cases ht.eq ht'
    exact ⟨rfl, links, rfl, hrest⟩
  | name ht' => exact absurd ht' ht.kind_ne.1
  | call ht' => exact absurd ht' ht.kind_ne.1
  | group ht' => exact absurd ht' ht.kind_ne.2

/-- A name is the front of every chain with its token, since a chain that starts with a call has a
parenthesis there. -/
theorem leadsChains_name (t : TokenOf .identifier) : (name t).LeadsChains := by
  intro p o links rest rest' _ _ hcalled ho h
  rw [tokens, List.singleton_append] at h
  cases ho.first.begins h with
  | literal ht' => exact absurd t.kind_eq ht'.kind_ne.1
  | name _ hrest => exact ⟨rfl, links, rfl, hrest⟩
  | @call opening _ _ _ _ _ hrest =>
    exact absurd opening.kind_eq (hcalled rfl _ (by rw [hrest]; rfl))
  | group ht' => exact absurd (t.kind_eq.symm.trans ht') (by decide)

/-- Parentheses are the front of every chain with their tokens if this holds of what is inside of
them. -/
theorem leadsChains_group {inner : WrittenExpr} (hinner : inner.LeadsChains)
    (opening : TokenOf (.operator .lParen)) (gap gap' : Newlines)
    (closing : TokenOf (.operator .rParen)) :
    (group opening gap inner gap' closing).LeadsChains := by
  intro p o links rest rest' hw _ _ ho h
  rw [WrittenExpr.Associates] at hw
  simp only [tokens, List.cons_append, List.append_assoc, List.nil_append] at h
  cases ho.first.begins h with
  | literal ht' => exact absurd opening.kind_eq ht'.kind_ne.2
  | name ht' => exact absurd (opening.kind_eq.symm.trans ht') (by decide)
  | call ht' => exact absurd (opening.kind_eq.symm.trans ht') (by decide)
  | @group before behind inner' closing' _ hw' h₁ =>
    obtain ⟨rfl, h₂⟩ := Newlines.eq_of_append (inner.unbroken _) (inner'.unbroken _) h₁
    obtain ⟨rfl, h₃⟩ := hinner.eq (complete_of_newlines hw (by decide) gap' closing _)
      (complete_of_newlines hw' (by decide) behind closing' _) h₂
    obtain ⟨rfl, h₄⟩ := Newlines.eq_of_append (closing.unbroken _) (closing'.unbroken _) h₃
    obtain ⟨hclosing, h₅⟩ := List.cons.inj h₄
    cases TokenOf.ext hclosing
    exact ⟨rfl, links, rfl, h₅⟩

end WrittenExpr

/-- Arguments, the parenthesis behind them and what follows are given by their tokens. -/
def WrittenArgs.Determined (args : WrittenArgs) : Prop :=
  ∀ {args' : WrittenArgs} {closing closing' : TokenOf (.operator .rParen)}
    {rest rest' : List Token}, args.Associates → args'.Associates →
    args.tokens ++ closing.token :: rest = args'.tokens ++ closing'.token :: rest' →
    args = args' ∧ closing = closing' ∧ rest = rest'

namespace WrittenExpr

/-- A call is the front of every chain with its tokens if its arguments are given by their
tokens. -/
theorem leadsChains_call {args : WrittenArgs} (hargs : args.Determined)
    (callee : TokenOf .identifier) (opening : TokenOf (.operator .lParen)) (gap : Newlines)
    (closing : TokenOf (.operator .rParen)) :
    (call callee opening gap args closing).LeadsChains := by
  intro p o links rest rest' hw _ _ ho h
  rw [WrittenExpr.Associates] at hw
  simp only [tokens, List.cons_append, List.append_assoc, List.nil_append] at h
  cases ho.first.begins h with
  | literal ht' => exact absurd callee.kind_eq ht'.kind_ne.1
  | name _ hrest => exact absurd opening.kind_eq (ho.unopened _ (by rw [← hrest]; rfl))
  | @call opening' gap' args' closing' _ hw' h₁ =>
    obtain ⟨hopening, h₂⟩ := List.cons.inj h₁
    cases TokenOf.ext hopening
    obtain ⟨rfl, h₃⟩ := Newlines.eq_of_append (args.unbroken _ _) (args'.unbroken _ _) h₂
    obtain ⟨rfl, rfl, h₄⟩ := hargs hw hw' h₃
    exact ⟨rfl, links, rfl, h₄⟩
  | group ht' => exact absurd (callee.kind_eq.symm.trans ht') (by decide)

/-- Both operands lead the chain, one behind the other. -/
theorem leadsChains_binary {op : BinaryOp} {left right : WrittenExpr} (hleft : left.LeadsChains)
    (hright : right.LeadsChains) {t : Token} (ht : t.Marks op) :
    (binary op left t right ht).LeadsChains := by
  intro p o links rest rest' hw hbinds hcalled ho h
  rw [WrittenExpr.Associates] at hw
  obtain ⟨hop, hl, hr⟩ := hbinds
  rw [tokens, List.append_assoc, List.cons_append] at h
  obtain ⟨hfirst, more, hmore, hrest⟩ := hleft hw.2.2.1 hl
    (fun _ => by rintro u ⟨⟩; exact ht.kind_ne) ho h
  cases more with
  | nil =>
    -- the operator would have to stand behind the chain, where none of its precedence does
    have hlt := ho.stops t (by rw [← show _ = rest' from hrest]; rfl) _ ht.precedence?
    omega
  | cons k more =>
    obtain ⟨op', t', ht', o'⟩ := k
    obtain ⟨rfl, htail⟩ := List.cons.inj hrest
    cases ht.eq ht'
    have hothers : ∀ k ∈ (⟨op, t, ht', o'⟩ : Link) :: more, k.operand.IsOperand :=
      fun k hk => ho.others k (by rw [hmore]; exact List.mem_append_right _ hk)
    have hchain : ChainComplete p o' more rest' :=
      { first := hothers _ (List.mem_cons_self ..)
        others := fun k hk => hothers k (List.mem_cons_of_mem _ hk)
        stops := ho.stops
        called := fun h => ho.called (by rw [hmore, chainEndsInName_append]; exact h) }
    obtain ⟨hfirst', more', hmore', hrest'⟩ := hright hw.2.2.2 hr hcalled hchain
      (by rw [htail, ← List.append_assoc]; rfl)
    refine ⟨by rw [first, hfirst], more', ?_, hrest'⟩
    rw [hmore, hmore', WrittenExpr.links, hfirst', List.append_assoc, List.cons_append]

end WrittenExpr

namespace WrittenArgs

/-- No argument is given by the parenthesis that closes at once. -/
theorem determined_none : none.Determined := by
  intro args' closing closing' rest rest' _ _ h
  cases args' with
  | none =>
    obtain ⟨hclosing, h₁⟩ := List.cons.inj h
    exact ⟨rfl, TokenOf.ext hclosing, h₁⟩
  | last arg gap =>
    rw [tokens, tokens, List.append_assoc] at h
    exact absurd h.symm (arg.tokens_append_ne _ _ _)
  | more arg gap comma gap' others =>
    rw [tokens, tokens, List.append_assoc] at h
    exact absurd h.symm (arg.tokens_append_ne _ _ _)

/-- The last argument is given by its tokens, since neither a comma nor a parenthesis goes on with
it. -/
theorem determined_last {arg : WrittenExpr} (harg : arg.LeadsChains) (gap : Newlines) :
    (last arg gap).Determined := by
  intro args' closing closing' rest rest' hargs hargs' h
  rw [WrittenArgs.Associates] at hargs
  cases args' with
  | none =>
    rw [tokens, tokens, List.append_assoc] at h
    exact absurd h (arg.tokens_append_ne _ _ _)
  | last arg' gap' =>
    rw [WrittenArgs.Associates] at hargs'
    simp only [tokens, List.append_assoc] at h
    obtain ⟨rfl, h₁⟩ := harg.eq (arg.complete_of_newlines hargs (by decide) gap closing _)
      (arg'.complete_of_newlines hargs' (by decide) gap' closing' _) h
    obtain ⟨rfl, h₂⟩ := Newlines.eq_of_append (closing.unbroken _) (closing'.unbroken _) h₁
    obtain ⟨hclosing, h₃⟩ := List.cons.inj h₂
    exact ⟨rfl, TokenOf.ext hclosing, h₃⟩
  | more arg' gap' comma gap'' others =>
    rw [WrittenArgs.Associates] at hargs'
    simp only [tokens, List.append_assoc, List.cons_append] at h
    obtain ⟨rfl, h₁⟩ := harg.eq (arg.complete_of_newlines hargs (by decide) gap closing _)
      (arg'.complete_of_newlines hargs'.1 (by decide) gap' comma _) h
    obtain ⟨rfl, h₂⟩ := Newlines.eq_of_append (closing.unbroken _) (comma.unbroken _) h₁
    exact absurd (closing.kind_eq.symm.trans ((List.cons.inj h₂).1 ▸ comma.kind_eq)) (by decide)

/-- An argument and the others are given by their tokens. -/
theorem determined_more {arg : WrittenExpr} {others : WrittenArgs} (harg : arg.LeadsChains)
    (hothers : others.Determined) (gap gap' : Newlines) (comma : TokenOf (.operator .comma)) :
    (more arg gap comma gap' others).Determined := by
  intro args' closing closing' rest rest' hargs hargs' h
  rw [WrittenArgs.Associates] at hargs
  cases args' with
  | none =>
    rw [tokens, tokens, List.append_assoc] at h
    exact absurd h (arg.tokens_append_ne _ _ _)
  | last arg' behind =>
    rw [WrittenArgs.Associates] at hargs'
    simp only [tokens, List.append_assoc, List.cons_append] at h
    obtain ⟨rfl, h₁⟩ := harg.eq (arg.complete_of_newlines hargs.1 (by decide) gap comma _)
      (arg'.complete_of_newlines hargs' (by decide) behind closing' _) h
    obtain ⟨rfl, h₂⟩ := Newlines.eq_of_append (comma.unbroken _) (closing'.unbroken _) h₁
    exact absurd (comma.kind_eq.symm.trans ((List.cons.inj h₂).1 ▸ closing'.kind_eq)) (by decide)
  | more arg' before comma' behind others' =>
    rw [WrittenArgs.Associates] at hargs'
    simp only [tokens, List.append_assoc, List.cons_append] at h
    obtain ⟨rfl, h₁⟩ := harg.eq (arg.complete_of_newlines hargs.1 (by decide) gap comma _)
      (arg'.complete_of_newlines hargs'.1 (by decide) before comma' _) h
    obtain ⟨rfl, h₂⟩ := Newlines.eq_of_append (comma.unbroken _) (comma'.unbroken _) h₁
    obtain ⟨hcomma, h₃⟩ := List.cons.inj h₂
    cases TokenOf.ext hcomma
    obtain ⟨rfl, h₄⟩ := Newlines.eq_of_append (others.unbroken _ _) (others'.unbroken _ _) h₃
    obtain ⟨rfl, rfl, h₅⟩ := hothers hargs.2 hargs'.2 h₄
    exact ⟨rfl, rfl, h₅⟩

end WrittenArgs

mutual

/-- Every tree is the front of all chains with the same tokens, by induction on the trees. -/
theorem WrittenExpr.leadsChains : ∀ w : WrittenExpr, w.LeadsChains
  | .literal _ _ ht => WrittenExpr.leadsChains_literal ht
  | .name t => WrittenExpr.leadsChains_name t
  | .call callee opening gap args closing =>
    WrittenExpr.leadsChains_call (WrittenArgs.determined args) callee opening gap closing
  | .group opening gap inner gap' closing =>
    WrittenExpr.leadsChains_group (WrittenExpr.leadsChains inner) opening gap gap' closing
  | .binary _ left _ right ht =>
    WrittenExpr.leadsChains_binary (WrittenExpr.leadsChains left) (WrittenExpr.leadsChains right) ht

/-- All arguments are given by their tokens. -/
theorem WrittenArgs.determined : ∀ args : WrittenArgs, args.Determined
  | .none => WrittenArgs.determined_none
  | .last arg gap => WrittenArgs.determined_last (WrittenExpr.leadsChains arg) gap
  | .more arg gap comma gap' rest =>
    WrittenArgs.determined_more (WrittenExpr.leadsChains arg) (WrittenArgs.determined rest) gap gap'
      comma

end

/-- A tree that is nested as its operators bind is given by its tokens, and so is where it ends. -/
theorem WrittenExpr.eq_of_tokens {p : Nat} {w w' : WrittenExpr} {rest rest' : List Token}
    (h : w.Complete p rest) (h' : w'.Complete p rest')
    (htokens : w.tokens ++ rest = w'.tokens ++ rest') : w = w' ∧ rest = rest' :=
  LeadsChains.eq w.leadsChains h h' htokens

end Scriptlet
