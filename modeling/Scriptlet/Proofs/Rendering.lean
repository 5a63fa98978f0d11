import Scriptlet.Tree.Parse

/-!
# Writing modules down as tokens

`Module.Renders` relates a module of the surface language to the token lists it is written as.  A
line end stands behind each statement, and parentheses stand only around a left operand that binds
less tightly than its operator and around a right operand that does not bind more tightly.  What
the language leaves open is left open here: spans, the text of a number, line ends behind an opening
brace and before `else`, and whether an `if` that is all of another block behind `else` stands in
braces.

`Module.numbered` is the module that reading such tokens gives, up to spans.
-/

namespace Scriptlet

/-! ## Trees up to spans -/

mutual

/-- An expression without its spans. -/
def Expr.unspanned : Expr → Expr
  | .literal _ value => .literal .zero value
  | .name _ id x => .name .zero id x
  | .binary _ op left right => .binary .zero op left.unspanned right.unspanned
  | .not _ operand => .not .zero operand.unspanned
  | .call _ id f args => .call .zero id f (Expr.unspannedAll args)

def Expr.unspannedAll : List Expr → List Expr
  | [] => []
  | e :: rest => e.unspanned :: Expr.unspannedAll rest

end

mutual

/-- A statement without its spans. -/
def Stmt.unspanned : Stmt → Stmt
  | .letStmt _ x value => .letStmt .zero x (value.map Expr.unspanned)
  | .fnStmt _ f params body => .fnStmt .zero f params (Stmt.unspannedAll body)
  | .returnStmt _ value => .returnStmt .zero (value.map Expr.unspanned)
  | .breakStmt _ => .breakStmt .zero
  | .continueStmt _ => .continueStmt .zero
  | .ifStmt _ cond body => .ifStmt .zero cond.unspanned (Stmt.unspannedAll body)
  | .ifElseStmt _ cond body other =>
    .ifElseStmt .zero cond.unspanned (Stmt.unspannedAll body) (Stmt.unspannedAll other)
  | .whileStmt _ cond body => .whileStmt .zero cond.unspanned (Stmt.unspannedAll body)
  | .exprStmt _ value => .exprStmt .zero value.unspanned

def Stmt.unspannedAll : List Stmt → List Stmt
  | [] => []
  | s :: rest => s.unspanned :: Stmt.unspannedAll rest

end

/-- A module without its spans. -/
def Module.unspanned (m : Module) : Module := ⟨Stmt.unspannedAll m.body, m.nodeCount⟩

/-! ## Numbers of uses of names -/

mutual

/-- How many uses of names an expression holds. -/
def Expr.uses : Expr → Nat
  | .literal _ _ => 0
  | .name _ _ _ => 1
  | .binary _ _ left right => left.uses + right.uses
  | .not _ operand => operand.uses
  | .call _ _ _ args => 1 + Expr.usesIn args

def Expr.usesIn : List Expr → Nat
  | [] => 0
  | e :: rest => e.uses + Expr.usesIn rest

end

mutual

/-- An expression without its spans, and with its uses of names numbered from a given number on: a
call before its arguments, the left operand before the right one. -/
def Expr.numbered : Expr → Nat → Expr
  | .literal _ value, _ => .literal .zero value
  | .name _ _ x, n => .name .zero n x
  | .binary _ op left right, n =>
    .binary .zero op (left.numbered n) (right.numbered (n + left.uses))
  | .not _ operand, n => .not .zero (operand.numbered n)
  | .call _ _ f args, n => .call .zero n f (Expr.numberedAll args (n + 1))

def Expr.numberedAll : List Expr → Nat → List Expr
  | [], _ => []
  | e :: rest, n => e.numbered n :: Expr.numberedAll rest (n + e.uses)

end

mutual

/-- How many uses of names a statement holds. -/
def Stmt.uses : Stmt → Nat
  | .letStmt _ _ value => (value.map Expr.uses).getD 0
  | .fnStmt _ _ _ body => Stmt.usesIn body
  | .returnStmt _ value => (value.map Expr.uses).getD 0
  | .breakStmt _ => 0
  | .continueStmt _ => 0
  | .ifStmt _ cond body => cond.uses + Stmt.usesIn body
  | .ifElseStmt _ cond body other => cond.uses + Stmt.usesIn body + Stmt.usesIn other
  | .whileStmt _ cond body => cond.uses + Stmt.usesIn body
  | .exprStmt _ value => value.uses

def Stmt.usesIn : List Stmt → Nat
  | [] => 0
  | s :: rest => s.uses + Stmt.usesIn rest

end

mutual

/-- A statement without its spans, and with its uses of names numbered from a given number on, in
the order in which they are written. -/
def Stmt.numbered : Stmt → Nat → Stmt
  | .letStmt _ x value, n => .letStmt .zero x (value.map fun e => e.numbered n)
  | .fnStmt _ f params body, n => .fnStmt .zero f params (Stmt.numberedAll body n)
  | .returnStmt _ value, n => .returnStmt .zero (value.map fun e => e.numbered n)
  | .breakStmt _, _ => .breakStmt .zero
  | .continueStmt _, _ => .continueStmt .zero
  | .ifStmt _ cond body, n =>
    .ifStmt .zero (cond.numbered n) (Stmt.numberedAll body (n + cond.uses))
  | .ifElseStmt _ cond body other, n =>
    .ifElseStmt .zero (cond.numbered n) (Stmt.numberedAll body (n + cond.uses))
      (Stmt.numberedAll other (n + cond.uses + Stmt.usesIn body))
  | .whileStmt _ cond body, n =>
    .whileStmt .zero (cond.numbered n) (Stmt.numberedAll body (n + cond.uses))
  | .exprStmt _ value, n => .exprStmt .zero (value.numbered n)

def Stmt.numberedAll : List Stmt → Nat → List Stmt
  | [], _ => []
  | s :: rest, n => s.numbered n :: Stmt.numberedAll rest (n + s.uses)

end

/-- A module without its spans, and with its uses of names numbered from zero on in the order in
which they are written. -/
def Module.numbered (m : Module) : Module :=
  ⟨Stmt.numberedAll m.body 0, Stmt.usesIn m.body⟩

/-! ## Expressions as tokens -/

/-- The mark an operation is written with, if there is one. -/
def BinaryOp.mark? : BinaryOp → Option Operator
  | .add => some .plus
  | .sub => some .minus
  | .mul => some .star
  | .div => some .slash
  | .eq => some .eqEq
  | .notEq => some .notEq
  | .lt => some .lt
  | .ltEq => some .ltEq
  | .gt => some .gt
  | .gtEq => some .gtEq
  | .and | .or => none

/-- How tightly an operation binds its operands. -/
def BinaryOp.precedence (op : BinaryOp) : Nat := (op.mark?.bind Operator.precedence?).getD 0

mutual

/-- The tokens of an expression where its operator has to bind at least as tightly as a given
precedence, or else parentheses stand around it. -/
inductive Expr.Renders : Nat → Expr → List Token → Prop
  | number {p : Nat} {span : Span} {value : Literal} {t : Token} (ht : t.kind = .number)
      (hvalue : Literal.ofNumber? t.text = some value) : Renders p (.literal span value) [t]
  | string {p : Nat} {span : Span} {t : Token} (ht : t.kind = .string) :
      Renders p (.literal span (.str t.text)) [t]
  | bool {p : Nat} {span : Span} {b : Bool} {t : Token}
      (ht : t.kind = .keyword (if b then .trueWord else .falseWord)) :
      Renders p (.literal span (.bool b)) [t]
  | name {p : Nat} {span : Span} {id : Nat} {t : Token} (ht : t.kind = .identifier) :
      Renders p (.name span id t.text) [t]
  | call {p : Nat} {span : Span} {id : Nat} {args : List Expr} {t opening closing : Token}
      {ts : List Token} (ht : t.kind = .identifier) (hopening : opening.kind = .operator .lParen)
      (hargs : Expr.RendersAll args ts) (hclosing : closing.kind = .operator .rParen) :
      Renders p (.call span id t.text args) (t :: opening :: (ts ++ [closing]))
  | binary {p : Nat} {span : Span} {op : BinaryOp} {mark : Operator} {left right : Expr} {t : Token}
      {ls rs : List Token} (hp : p ≤ op.precedence) (hmark : op.mark? = some mark)
      (hleft : Renders op.precedence left ls) (ht : t.kind = .operator mark)
      (hright : Renders (op.precedence + 1) right rs) :
      Renders p (.binary span op left right) (ls ++ t :: rs)
  | parentheses {p : Nat} {span : Span} {op : BinaryOp} {left right : Expr}
      {opening closing : Token} {ts : List Token} (hp : op.precedence < p)
      (hopening : opening.kind = .operator .lParen)
      (hinner : Renders 0 (.binary span op left right) ts)
      (hclosing : closing.kind = .operator .rParen) :
      Renders p (.binary span op left right) (opening :: (ts ++ [closing]))

/-- The tokens of expressions with commas between them. -/
inductive Expr.RendersAll : List Expr → List Token → Prop
  | nil : RendersAll [] []
  | one {e : Expr} {ts : List Token} (h : Expr.Renders 0 e ts) : RendersAll [e] ts
  | cons {e e' : Expr} {es : List Expr} {comma : Token} {ts us : List Token}
      (h : Expr.Renders 0 e ts) (hcomma : comma.kind = .operator .comma)
      (hrest : RendersAll (e' :: es) us) : RendersAll (e :: e' :: es) (ts ++ comma :: us)

end

/-! ## Statements as tokens -/

/-- Whether a statement is an `if`. -/
def Stmt.isConditional : Stmt → Bool
  | .ifStmt _ _ _ => true
  | .ifElseStmt _ _ _ _ => true
  | _ => false

mutual

/-- The tokens of a statement inside a function. -/
inductive Stmt.Renders : Stmt → List Token → Prop
  | letStmt {span : Span} {value : Expr} {t x eq : Token} {ts : List Token}
      (ht : t.kind = .keyword .letWord) (hx : x.kind = .identifier) (heq : eq.kind = .operator .eq)
      (hvalue : value.Renders 0 ts) :
      Renders (.letStmt span x.text (some value)) (t :: x :: eq :: ts)
  | returnNone {span : Span} {t : Token} (ht : t.kind = .keyword .returnWord) :
      Renders (.returnStmt span none) [t]
  | returnSome {span : Span} {value : Expr} {t : Token} {ts : List Token}
      (ht : t.kind = .keyword .returnWord) (hvalue : value.Renders 0 ts) :
      Renders (.returnStmt span (some value)) (t :: ts)
  | breakStmt {span : Span} {t : Token} (ht : t.isName breakName = true) :
      Renders (.breakStmt span) [t]
  | continueStmt {span : Span} {t : Token} (ht : t.isName continueName = true) :
      Renders (.continueStmt span) [t]
  | ifStmt {span : Span} {cond : Expr} {body : List Stmt} {t : Token} {cs bs : List Token}
      (ht : t.kind = .keyword .ifWord) (hcond : cond.Renders 0 cs)
      (hbody : Stmt.RendersBlock body bs) : Renders (.ifStmt span cond body) (t :: (cs ++ bs))
  | ifElseStmt {span : Span} {cond : Expr} {body other : List Stmt} {t word : Token}
      {cs bs gap os : List Token} (ht : t.kind = .keyword .ifWord) (hcond : cond.Renders 0 cs)
      (hbody : Stmt.RendersBlock body bs) (hgap : ∀ n ∈ gap, n.kind = .newline)
      (hword : word.kind = .keyword .elseWord) (hother : Stmt.RendersBlock other os) :
      Renders (.ifElseStmt span cond body other) (t :: (cs ++ (bs ++ (gap ++ word :: os))))
  | elseIfStmt {span : Span} {cond : Expr} {body : List Stmt} {other : Stmt} {t word : Token}
      {cs bs gap os : List Token} (ht : t.kind = .keyword .ifWord) (hcond : cond.Renders 0 cs)
      (hbody : Stmt.RendersBlock body bs) (hgap : ∀ n ∈ gap, n.kind = .newline)
      (hword : word.kind = .keyword .elseWord) (hif : other.isConditional = true)
      (hother : Renders other os) :
      Renders (.ifElseStmt span cond body [other]) (t :: (cs ++ (bs ++ (gap ++ word :: os))))
  | whileStmt {span : Span} {cond : Expr} {body : List Stmt} {t : Token} {cs bs : List Token}
      (ht : t.kind = .keyword .whileWord) (hcond : cond.Renders 0 cs)
      (hbody : Stmt.RendersBlock body bs) : Renders (.whileStmt span cond body) (t :: (cs ++ bs))
  | exprStmt {span : Span} {value : Expr} {ts : List Token} (hvalue : value.Renders 0 ts)
      (hfirst : ∀ t ∈ ts.head?, t.isName breakName = false ∧ t.isName continueName = false) :
      Renders (.exprStmt span value) ts

/-- The tokens of a block in braces. -/
inductive Stmt.RendersBlock : List Stmt → List Token → Prop
  | block {ss : List Stmt} {opening closing : Token} {gap ts : List Token}
      (hopening : opening.kind = .operator .lBrace) (hgap : ∀ n ∈ gap, n.kind = .newline)
      (hlines : Stmt.RendersLines ss ts) (hclosing : closing.kind = .operator .rBrace) :
      RendersBlock ss (opening :: (gap ++ (ts ++ [closing])))

/-- The tokens of statements, with a line end behind each. -/
inductive Stmt.RendersLines : List Stmt → List Token → Prop
  | nil : RendersLines [] []
  | cons {s : Stmt} {ss : List Stmt} {newline : Token} {ts us : List Token} (h : Stmt.Renders s ts)
      (hnewline : newline.kind = .newline) (hrest : RendersLines ss us) :
      RendersLines (s :: ss) (ts ++ newline :: us)

end

/-! ## Modules as tokens -/

/-- The tokens of parameters with commas between them. -/
inductive RendersParams : List String → List Token → Prop
  | nil : RendersParams [] []
  | one {x : Token} (hx : x.kind = .identifier) : RendersParams [x.text] [x]
  | cons {x comma : Token} {param : String} {params : List String} {us : List Token}
      (hx : x.kind = .identifier) (hcomma : comma.kind = .operator .comma)
      (hrest : RendersParams (param :: params) us) :
      RendersParams (x.text :: param :: params) (x :: comma :: us)

/-- The tokens of a statement outside of functions. -/
inductive Stmt.RendersItem : Stmt → List Token → Prop
  | letStmt {span : Span} {x : String} {value : Expr} {ts : List Token}
      (h : Stmt.Renders (.letStmt span x (some value)) ts) :
      RendersItem (.letStmt span x (some value)) ts
  | fnStmt {span : Span} {params : List String} {body : List Stmt} {t f opening closing : Token}
      {ps bs : List Token} (ht : t.kind = .keyword .fnWord) (hf : f.kind = .identifier)
      (hopening : opening.kind = .operator .lParen) (hparams : RendersParams params ps)
      (hclosing : closing.kind = .operator .rParen) (hbody : Stmt.RendersBlock body bs) :
      RendersItem (.fnStmt span f.text params body)
        (t :: f :: opening :: (ps ++ closing :: bs))

/-- The tokens of statements outside of functions, with a line end behind each. -/
inductive Stmt.RendersItems : List Stmt → List Token → Prop
  | nil : RendersItems [] []
  | cons {s : Stmt} {ss : List Stmt} {newline : Token} {ts us : List Token}
      (h : s.RendersItem ts) (hnewline : newline.kind = .newline) (hrest : RendersItems ss us) :
      RendersItems (s :: ss) (ts ++ newline :: us)

/-- The tokens of a module; a token for the end of the input may stand at the end. -/
def Module.Renders (m : Module) (tokens : List Token) : Prop :=
  ∃ ts finish, tokens = ts ++ finish ∧ Stmt.RendersItems m.body ts ∧
    (finish = [] ∨ ∃ t, finish = [t] ∧ t.kind = .endOfInput)

/-! ## First tokens -/

/-- Whether an expression can start with a token of a given kind. -/
def TokenKind.startsExpr : TokenKind → Bool
  | .number | .string | .identifier => true
  | .keyword word => word == .trueWord || word == .falseWord
  | .operator mark => mark == .lParen
  | .newline | .comment | .endOfInput => false

/-- Whether a statement inside a function can start with a token of a given kind. -/
def TokenKind.startsStmt : TokenKind → Bool
  | .keyword .letWord | .keyword .returnWord | .keyword .ifWord | .keyword .whileWord => true
  | kind => kind.startsExpr

/-- A token of a class of kinds is not of a kind outside of the class. -/
theorem Token.kind_beq_eq_false {among : TokenKind → Bool} {t : Token} {kind : TokenKind}
    (ht : among t.kind = true) (hkind : among kind = false) : (t.kind == kind) = false := by
  rw [beq_eq_false_iff_ne]
  rintro rfl
  rw [ht] at hkind
  cases hkind

theorem Token.kind_of_isName {t : Token} {x : String} (h : t.isName x = true) :
    t.kind = .identifier := by
  rw [isName, Bool.and_eq_true, beq_iff_eq] at h
  exact h.1

theorem TokenKind.startsStmt_of_startsExpr {kind : TokenKind} (h : kind.startsExpr = true) :
    kind.startsStmt = true := by
  unfold startsStmt
  split
  · rfl
  · rfl
  · rfl
  · rfl
  · exact h

/-- The first token of an expression. -/
theorem Expr.Renders.exists_first {p : Nat} {e : Expr} {ts : List Token} (h : e.Renders p ts) :
    ∃ t rest, ts = t :: rest ∧ t.kind.startsExpr = true := by
  cases h with
  | number ht _ => exact ⟨_, _, rfl, by rw [ht]; rfl⟩
  | string ht => exact ⟨_, _, rfl, by rw [ht]; rfl⟩
  | @bool _ _ b _ ht => exact ⟨_, _, rfl, by rw [ht]; cases b <;> rfl⟩
  | name ht => exact ⟨_, _, rfl, by rw [ht]; rfl⟩
  | call ht _ _ _ => exact ⟨_, _, rfl, by rw [ht]; rfl⟩
  | binary _ _ hleft _ _ =>
    obtain ⟨t, rest, rfl, ht⟩ := hleft.exists_first
    exact ⟨t, _, rfl, ht⟩
  | parentheses _ hopening _ _ => exact ⟨_, _, rfl, by rw [hopening]; rfl⟩

/-- The first token of a statement inside a function. -/
theorem Stmt.Renders.exists_first {s : Stmt} {ts : List Token} (h : s.Renders ts) :
    ∃ t rest, ts = t :: rest ∧ t.kind.startsStmt = true := by
  cases h with
  | letStmt ht _ _ _ => exact ⟨_, _, rfl, by rw [ht]; rfl⟩
  | returnNone ht => exact ⟨_, _, rfl, by rw [ht]; rfl⟩
  | returnSome ht _ => exact ⟨_, _, rfl, by rw [ht]; rfl⟩
  | breakStmt ht => exact ⟨_, _, rfl, by rw [Token.kind_of_isName ht]; rfl⟩
  | continueStmt ht => exact ⟨_, _, rfl, by rw [Token.kind_of_isName ht]; rfl⟩
  | ifStmt ht _ _ => exact ⟨_, _, rfl, by rw [ht]; rfl⟩
  | ifElseStmt ht _ _ _ _ _ => exact ⟨_, _, rfl, by rw [ht]; rfl⟩
  | elseIfStmt ht _ _ _ _ _ _ => exact ⟨_, _, rfl, by rw [ht]; rfl⟩
  | whileStmt ht _ _ => exact ⟨_, _, rfl, by rw [ht]; rfl⟩
  | exprStmt hvalue _ =>
    obtain ⟨t, rest, hts, ht⟩ := hvalue.exists_first
    exact ⟨t, rest, hts, TokenKind.startsStmt_of_startsExpr ht⟩

/-- An `if` starts with its word. -/
theorem Stmt.Renders.exists_ifWord {s : Stmt} {ts : List Token} (h : s.Renders ts)
    (hs : s.isConditional = true) : ∃ t rest, ts = t :: rest ∧ t.kind = .keyword .ifWord := by
  cases h with
  | ifStmt ht _ _ => exact ⟨_, _, rfl, ht⟩
  | ifElseStmt ht _ _ _ _ _ => exact ⟨_, _, rfl, ht⟩
  | elseIfStmt ht _ _ _ _ _ _ => exact ⟨_, _, rfl, ht⟩
  | _ => cases hs

/-! ## Tokens that are read -/

/-- Whether a token is not passed over and does not end the input. -/
def Token.isPlain (t : Token) : Bool := t.kind != .comment && t.kind != .endOfInput

theorem Token.isPlain_of_kind {t : Token} {kind : TokenKind} (h : t.kind = kind)
    (hkind : (kind != .comment && kind != .endOfInput) = true) : t.isPlain = true := by
  rw [isPlain, h, hkind]

theorem Token.all_isPlain_of_newline {gap : List Token} (h : ∀ n ∈ gap, n.kind = .newline) :
    gap.all isPlain = true := by
  rw [List.all_eq_true]
  intro n hn
  exact isPlain_of_kind (h n hn) rfl

mutual

/-- All tokens of an expression are read. -/
theorem Expr.Renders.all_isPlain {p : Nat} {e : Expr} {ts : List Token} (h : e.Renders p ts) :
    ts.all Token.isPlain = true := by
  cases h with
  | number ht _ => simp [Token.isPlain_of_kind ht]
  | string ht => simp [Token.isPlain_of_kind ht]
  | bool ht => simp [Token.isPlain_of_kind ht]
  | name ht => simp [Token.isPlain_of_kind ht]
  | call ht hopening hargs hclosing =>
    simp [hargs.all_isPlain, Token.isPlain_of_kind ht, Token.isPlain_of_kind hopening,
      Token.isPlain_of_kind hclosing]
  | binary _ _ hleft ht hright =>
    simp [hleft.all_isPlain, hright.all_isPlain, Token.isPlain_of_kind ht]
  | parentheses _ hopening hinner hclosing =>
    simp [hinner.all_isPlain, Token.isPlain_of_kind hopening, Token.isPlain_of_kind hclosing]

theorem Expr.RendersAll.all_isPlain {es : List Expr} {ts : List Token} (h : RendersAll es ts) :
    ts.all Token.isPlain = true := by
  cases h with
  | nil => rfl
  | one h => exact h.all_isPlain
  | cons h hcomma hrest => simp [h.all_isPlain, hrest.all_isPlain, Token.isPlain_of_kind hcomma]

end

mutual

/-- All tokens of a statement are read. -/
theorem Stmt.Renders.all_isPlain :
    ∀ {s : Stmt} {ts : List Token}, s.Renders ts → ts.all Token.isPlain = true
  | _, _, .letStmt ht hx heq hvalue => by
    simp [hvalue.all_isPlain, Token.isPlain_of_kind ht, Token.isPlain_of_kind hx,
      Token.isPlain_of_kind heq]
  | _, _, .returnNone ht => by simp [Token.isPlain_of_kind ht]
  | _, _, .returnSome ht hvalue => by simp [hvalue.all_isPlain, Token.isPlain_of_kind ht]
  | _, _, .breakStmt ht => by simp [Token.isPlain_of_kind (Token.kind_of_isName ht)]
  | _, _, .continueStmt ht => by simp [Token.isPlain_of_kind (Token.kind_of_isName ht)]
  | _, _, .ifStmt ht hcond hbody => by
    simp [hcond.all_isPlain, hbody.all_isPlain, Token.isPlain_of_kind ht]
  | _, _, .ifElseStmt ht hcond hbody hgap hword hother => by
    simp [hcond.all_isPlain, hbody.all_isPlain, hother.all_isPlain, Token.isPlain_of_kind ht,
      Token.isPlain_of_kind hword, Token.all_isPlain_of_newline hgap]
  | _, _, .elseIfStmt ht hcond hbody hgap hword _ hother => by
    simp [hcond.all_isPlain, hbody.all_isPlain, hother.all_isPlain, Token.isPlain_of_kind ht,
      Token.isPlain_of_kind hword, Token.all_isPlain_of_newline hgap]
  | _, _, .whileStmt ht hcond hbody => by
    simp [hcond.all_isPlain, hbody.all_isPlain, Token.isPlain_of_kind ht]
  | _, _, .exprStmt hvalue _ => hvalue.all_isPlain

theorem Stmt.RendersBlock.all_isPlain :
    ∀ {ss : List Stmt} {ts : List Token}, RendersBlock ss ts → ts.all Token.isPlain = true
  | _, _, .block hopening hgap hlines hclosing => by
    simp [hlines.all_isPlain, Token.isPlain_of_kind hopening, Token.isPlain_of_kind hclosing,
      Token.all_isPlain_of_newline hgap]

theorem Stmt.RendersLines.all_isPlain :
    ∀ {ss : List Stmt} {ts : List Token}, RendersLines ss ts → ts.all Token.isPlain = true
  | _, _, .nil => rfl
  | _, _, .cons h hnewline hrest => by
    simp [h.all_isPlain, hrest.all_isPlain, Token.isPlain_of_kind hnewline]

end

theorem RendersParams.all_isPlain {params : List String} {ts : List Token}
    (h : RendersParams params ts) : ts.all Token.isPlain = true := by
  induction h with
  | nil => rfl
  | one hx => simp [Token.isPlain_of_kind hx]
  | cons hx hcomma _ ih => simp [ih, Token.isPlain_of_kind hx, Token.isPlain_of_kind hcomma]

/-- All tokens of the statements of a module are read. -/
theorem Stmt.RendersItems.all_isPlain {ss : List Stmt} {ts : List Token} (h : RendersItems ss ts) :
    ts.all Token.isPlain = true := by
  induction h with
  | nil => rfl
  | cons h hnewline _ ih =>
    cases h with
    | letStmt h => simp [h.all_isPlain, ih, Token.isPlain_of_kind hnewline]
    | fnStmt ht hf hopening hparams hclosing hbody =>
      simp [hparams.all_isPlain, hbody.all_isPlain, ih, Token.isPlain_of_kind hnewline,
        Token.isPlain_of_kind ht, Token.isPlain_of_kind hf, Token.isPlain_of_kind hopening,
        Token.isPlain_of_kind hclosing]

end Scriptlet
