import Scriptlet.Proofs.WrittenExpressions

/-!
# Trees over tokens

`Over` is the grammar of the language with the span of every node in it: it says over which tokens
expressions, statements and the lists of them stand.  The tokens of a node are its own marks and
words and those of its parts, with nothing else between them but line ends and separators, and its
span is their extent, from the start of the first to the end of the last.  An expression in
parentheses stands over the parentheses, too.

So the parts of a node stand one behind the other over tokens of the node (`Over.laid`), and their
spans lie inside of its span and apart from each other (`Laid.span_inside`, `Laid.pairwise`).
-/

namespace Scriptlet

/-! ## Extents -/

/-- The stretch from the start of the first of some tokens to the end of the last. -/
def extent : List Token → Span
  | [] => .zero
  | t :: ts => ⟨t.span.start, (ts.getLastD t).span.stop, t.span.line, t.span.column⟩

/-- Spans in order merge to the stretch from the start of the first to the end of the second. -/
theorem Span.merge_of_le {a b : Span} (hstart : a.start ≤ b.start) (hstop : a.stop ≤ b.stop) :
    a.merge b = ⟨a.start, b.stop, a.line, a.column⟩ := by
  rw [merge, if_pos hstart, Nat.min_eq_left hstart, Nat.max_eq_right hstop]

/-- Tokens that stand one behind the other. -/
structure Token.InOrder (ts : List Token) : Prop where
  nonempty : ∀ t ∈ ts, t.span.start < t.span.stop
  increasing : ts.Pairwise fun t u => t.span.stop ≤ u.span.start

/-- Tokens in a row end where the last of them end. -/
theorem stop_extent_append (ts : List Token) {us : List Token} (h : us ≠ []) :
    (extent (ts ++ us)).stop = (extent us).stop := by
  obtain ⟨u, us, rfl⟩ := List.exists_cons_of_ne_nil h
  cases ts with
  | nil => rfl
  | cons t ts =>
    show ((ts ++ u :: us).getLastD t).span.stop = (us.getLastD u).span.stop
    rw [List.getLastD_eq_getLast?, List.getLast?_append, List.getLast?_cons, Option.some_or,
      Option.getD_some, List.getLastD_eq_getLast?]

/-- The ends of the extent of some tokens are those of two of them. -/
theorem exists_ends {ts : List Token} (h : ts ≠ []) : ∃ first ∈ ts, ∃ last ∈ ts,
    (extent ts).start = first.span.start ∧ (extent ts).stop = last.span.stop := by
  obtain ⟨t, ts, rfl⟩ := List.exists_cons_of_ne_nil h
  exact ⟨t, List.mem_cons_self .., ts.getLastD t, List.getLastD_mem_cons .., rfl, rfl⟩

namespace Token.InOrder

variable {ts us : List Token}

theorem sublist (h : InOrder us) (hsub : ts.Sublist us) : InOrder ts :=
  ⟨fun t ht => h.nonempty t (hsub.subset ht), h.increasing.sublist hsub⟩

theorem left (h : InOrder (ts ++ us)) : InOrder ts := h.sublist (List.sublist_append_left ..)

theorem right (h : InOrder (ts ++ us)) : InOrder us := h.sublist (List.sublist_append_right ..)

/-- What stands in front ends before what stands behind starts. -/
theorem stop_le (h : InOrder (ts ++ us)) {t u : Token} (ht : t ∈ ts) (hu : u ∈ us) :
    t.span.stop ≤ u.span.start :=
  (List.pairwise_append.mp h.increasing).2.2 t ht u hu

/-- Every token lies inside of the extent. -/
theorem inside_extent (h : InOrder ts) {t : Token} (ht : t ∈ ts) :
    (extent ts).start ≤ t.span.start ∧ t.span.stop ≤ (extent ts).stop := by
  obtain ⟨before, behind, rfl⟩ := List.append_of_mem ht
  constructor
  · cases before with
    | nil => exact Nat.le_refl _
    | cons u us =>
      have hle := h.stop_le (List.mem_cons_self ..) (List.mem_cons_self ..)
      exact Nat.le_of_lt (Nat.lt_of_lt_of_le (h.nonempty u (List.mem_cons_self ..)) hle)
  · rw [stop_extent_append _ (List.cons_ne_nil _ _)]
    cases behind with
    | nil => exact Nat.le_refl _
    | cons v vs =>
      obtain ⟨-, -, last, hlast, -, hstop⟩ := exists_ends (List.cons_ne_nil v vs)
      have hapart : InOrder ([t] ++ v :: vs) := h.right
      have hle := hapart.stop_le (List.mem_singleton.mpr rfl) hlast
      have hlt := hapart.right.nonempty last hlast
      have hsame : (extent (t :: v :: vs)).stop = (extent (v :: vs)).stop :=
        stop_extent_append [t] (List.cons_ne_nil v vs)
      omega

/-- The extent of some of the tokens lies inside of that of all. -/
theorem extent_inside (h : InOrder us) (hne : ts ≠ []) (hsub : ts ⊆ us) :
    (extent us).start ≤ (extent ts).start ∧ (extent ts).stop ≤ (extent us).stop := by
  obtain ⟨first, hfirst, last, hlast, hstart, hstop⟩ := exists_ends hne
  rw [hstart, hstop]
  exact ⟨(h.inside_extent (hsub hfirst)).1, (h.inside_extent (hsub hlast)).2⟩

/-- The extent of what stands in front ends before that of what stands behind starts. -/
theorem extent_stop_le (h : InOrder (ts ++ us)) (hts : ts ≠ []) (hus : us ≠ []) :
    (extent ts).stop ≤ (extent us).start := by
  obtain ⟨-, -, last, hlast, -, hstop⟩ := exists_ends hts
  obtain ⟨first, hfirst, -, -, hstart, -⟩ := exists_ends hus
  rw [hstop, hstart]
  exact h.stop_le hlast hfirst

/-- The extents of two rows of tokens span what lies between them, too. -/
theorem merge_extent {mid : List Token} (h : InOrder (ts ++ (mid ++ us))) (hts : ts ≠ [])
    (hus : us ≠ []) : (extent ts).merge (extent us) = extent (ts ++ (mid ++ us)) := by
  obtain ⟨t, ts, rfl⟩ := List.exists_cons_of_ne_nil hts
  have hstop : (extent (t :: ts ++ (mid ++ us))).stop = (extent us).stop := by
    rw [← List.append_assoc, stop_extent_append _ hus]
  have hfirst := h.extent_inside hts (List.subset_append_left ..)
  have hlast := h.extent_inside hus fun u hu => List.mem_append_right _ (List.mem_append_right _ hu)
  rw [hstop] at hfirst
  have hmerge : (extent (t :: ts)).merge (extent us) = _ := Span.merge_of_le hlast.1 hfirst.2
  rw [hmerge, ← hstop]
  rfl

/-- A span from the first of some tokens to the last. -/
theorem merge_last {t : Token} (h : InOrder (t :: ts)) :
    t.span.merge (ts.getLastD t).span = extent (t :: ts) :=
  Span.merge_of_le (h.inside_extent (List.getLastD_mem_cons ..)).1
    (h.inside_extent (List.mem_cons_self ..)).2

end Token.InOrder

/-! ## The grammar -/

/-- Line ends and semicolons in a row. -/
structure Separators where
  tokens : List Token
  separator : ∀ t ∈ tokens, t.kind = .newline ∨ t.kind = .operator .semicolon

/-- What can stand over tokens. -/
inductive Passage where
  | expression (e : Expr)
  | arguments (es : List Expr)
  | parameters (params : List String)
  | statement (s : Stmt)
  | conditional (s : Stmt)
  | block (b : Block)
  /-- The statements of a block. -/
  | statements (b : Block)
  /-- The declarations and definitions of a module. -/
  | items (b : Block)

/-- A passage stands over some tokens: it is written with them, and the spans of all of its nodes
are the extents of their tokens. -/
inductive Over : Passage → List Token → Prop
  | literal {value : Literal} (t : Token) (ht : t.Denotes value) :
      Over (.expression (.literal (extent [t]) value)) [t]
  | name {id : Nat} (t : TokenOf .identifier) :
      Over (.expression (.name (extent [t.token]) id t.token.text)) [t.token]
  | call {id : Nat} {es : List Expr} {args ts : List Token} (callee : TokenOf .identifier)
      (opening : TokenOf (.operator .lParen)) (gap : Newlines)
      (closing : TokenOf (.operator .rParen)) (hargs : Over (.arguments es) args)
      (hts : ts = callee.token :: opening.token :: (gap.tokens ++ (args ++ [closing.token]))) :
      Over (.expression (.call (extent ts) id callee.token.text es)) ts
  | group {e : Expr} {inner ts : List Token} (opening : TokenOf (.operator .lParen))
      (gap gap' : Newlines) (closing : TokenOf (.operator .rParen))
      (hinner : Over (.expression e) inner)
      (hts : ts = opening.token :: (gap.tokens ++ (inner ++ (gap'.tokens ++ [closing.token])))) :
      Over (.expression (e.withSpan (extent ts))) ts
  | binary {op : BinaryOp} {left right : Expr} {ls rs ts : List Token} (t : Token) (ht : t.Marks op)
      (hleft : Over (.expression left) ls) (hright : Over (.expression right) rs)
      (hts : ts = ls ++ t :: rs) : Over (.expression (.binary (extent ts) op left right)) ts
  | noArgument : Over (.arguments []) []
  | lastArgument {e : Expr} {ts : List Token} (gap : Newlines) (hlast : Over (.expression e) ts) :
      Over (.arguments [e]) (ts ++ gap.tokens)
  | argument {e : Expr} {es : List Expr} {ts us : List Token} (gap : Newlines)
      (comma : TokenOf (.operator .comma)) (gap' : Newlines) (hfirst : Over (.expression e) ts)
      (hrest : Over (.arguments es) us) :
      Over (.arguments (e :: es)) (ts ++ (gap.tokens ++ comma.token :: (gap'.tokens ++ us)))
  | noParameter : Over (.parameters []) []
  | lastParameter (t : TokenOf .identifier) (gap : Newlines) :
      Over (.parameters [t.token.text]) (t.token :: gap.tokens)
  | parameter {params : List String} {us : List Token} (t : TokenOf .identifier) (gap : Newlines)
      (comma : TokenOf (.operator .comma)) (gap' : Newlines)
      (hrest : Over (.parameters params) us) :
      Over (.parameters (t.token.text :: params))
        (t.token :: (gap.tokens ++ comma.token :: (gap'.tokens ++ us)))
  | letStmt {e : Expr} {us ts : List Token} (word : TokenOf (.keyword .letWord))
      (x : TokenOf .identifier) (mark : TokenOf (.operator .eq)) (hvalue : Over (.expression e) us)
      (hts : ts = word.token :: x.token :: mark.token :: us) :
      Over (.statement (.letStmt (extent ts) x.token.text (some e))) ts
  | fnStmt {params : List String} {body : Block} {us vs ts : List Token}
      (word : TokenOf (.keyword .fnWord)) (name : TokenOf .identifier)
      (opening : TokenOf (.operator .lParen)) (gap : Newlines)
      (closing : TokenOf (.operator .rParen)) (hparams : Over (.parameters params) us)
      (hbody : Over (.block body) vs)
      (hts : ts = word.token :: name.token :: opening.token ::
        (gap.tokens ++ (us ++ closing.token :: vs))) :
      Over (.statement (.fnStmt (extent ts) name.token.text params body)) ts
  | returnStmt (word : TokenOf (.keyword .returnWord)) :
      Over (.statement (.returnStmt (extent [word.token]) none)) [word.token]
  | returnValue {e : Expr} {us ts : List Token} (word : TokenOf (.keyword .returnWord))
      (hvalue : Over (.expression e) us) (hts : ts = word.token :: us) :
      Over (.statement (.returnStmt (extent ts) (some e))) ts
  | breakStmt (t : Token) (ht : t.isName breakName = true) :
      Over (.statement (.breakStmt (extent [t]))) [t]
  | continueStmt (t : Token) (ht : t.isName continueName = true) :
      Over (.statement (.continueStmt (extent [t]))) [t]
  | exprStmt {e : Expr} {ts : List Token} (hvalue : Over (.expression e) ts) :
      Over (.statement (.exprStmt (extent ts) e)) ts
  | whileStmt {cond : Expr} {body : Block} {us vs ts : List Token}
      (word : TokenOf (.keyword .whileWord)) (hcond : Over (.expression cond) us)
      (hbody : Over (.block body) vs) (hts : ts = word.token :: (us ++ vs)) :
      Over (.statement (.whileStmt (extent ts) cond body)) ts
  | conditional {s : Stmt} {ts : List Token} (h : Over (.conditional s) ts) :
      Over (.statement s) ts
  | ifStmt {cond : Expr} {body : Block} {us vs ts : List Token} (word : TokenOf (.keyword .ifWord))
      (hcond : Over (.expression cond) us) (hbody : Over (.block body) vs)
      (hts : ts = word.token :: (us ++ vs)) :
      Over (.conditional (.ifStmt (extent ts) cond body)) ts
  | ifElseIf {cond : Expr} {body : Block} {other : Stmt} {us vs ws ts : List Token}
      (word : TokenOf (.keyword .ifWord)) (gap : Newlines) (word' : TokenOf (.keyword .elseWord))
      (hcond : Over (.expression cond) us) (hbody : Over (.block body) vs)
      (hother : Over (.conditional other) ws)
      (hts : ts = word.token :: (us ++ (vs ++ (gap.tokens ++ word'.token :: ws)))) :
      Over (.conditional (.ifElseStmt (extent ts) cond body [other])) ts
  | ifElse {cond : Expr} {body other : Block} {us vs ws ts : List Token}
      (word : TokenOf (.keyword .ifWord)) (gap : Newlines) (word' : TokenOf (.keyword .elseWord))
      (hcond : Over (.expression cond) us) (hbody : Over (.block body) vs)
      (hother : Over (.block other) ws)
      (hts : ts = word.token :: (us ++ (vs ++ (gap.tokens ++ word'.token :: ws)))) :
      Over (.conditional (.ifElseStmt (extent ts) cond body other)) ts
  | block {b : Block} {ts : List Token} (gap : Newlines) (opening : TokenOf (.operator .lBrace))
      (gap' : Separators) (closing : TokenOf (.operator .rBrace))
      (hbody : Over (.statements b) ts) :
      Over (.block b) (gap.tokens ++ opening.token :: (gap'.tokens ++ (ts ++ [closing.token])))
  | noStatement : Over (.statements []) []
  | statements {s : Stmt} {b : Block} {ts us : List Token} (gap : Separators)
      (hfirst : Over (.statement s) ts) (hrest : Over (.statements b) us) :
      Over (.statements (s :: b)) (ts ++ (gap.tokens ++ us))
  /-- Tokens that start no item are skipped. -/
  | noItem {gap : List Token}
      (hgap : ∀ t ∈ gap, t.isKeyword .letWord = false ∧ t.isKeyword .fnWord = false) :
      Over (.items []) gap
  | items {s : Stmt} {b : Block} {gap ts us : List Token}
      (hgap : ∀ t ∈ gap, t.isKeyword .letWord = false ∧ t.isKeyword .fnWord = false)
      (hfirst : Over (.statement s) ts) (hrest : Over (.items b) us) :
      Over (.items (s :: b)) (gap ++ (ts ++ us))

/-! ## Nodes and their parts -/

/-- A node of a tree. -/
inductive Node where
  | expression (e : Expr)
  | statement (s : Stmt)

namespace Node

def span : Node → Span
  | expression e => e.span
  | statement s => s.span

/-- The nodes right below a node, in the order in which they are written. -/
def parts : Node → List Node
  | expression (.literal _ _) | expression (.name _ _ _) => []
  | expression (.binary _ _ left right) => [.expression left, .expression right]
  | expression (.not _ operand) => [.expression operand]
  | expression (.call _ _ _ args) => args.map .expression
  | statement (.letStmt _ _ value) => value.toList.map .expression
  | statement (.fnStmt _ _ _ body) => body.map .statement
  | statement (.returnStmt _ value) => value.toList.map .expression
  | statement (.breakStmt _) | statement (.continueStmt _) => []
  | statement (.ifStmt _ cond body) => .expression cond :: body.map .statement
  | statement (.ifElseStmt _ cond body other) =>
    .expression cond :: (body.map .statement ++ other.map .statement)
  | statement (.whileStmt _ cond body) => .expression cond :: body.map .statement
  | statement (.exprStmt _ value) => [.expression value]

def passage : Node → Passage
  | expression e => .expression e
  | statement s => .statement s

theorem parts_withSpan (span : Span) (e : Expr) :
    (expression (e.withSpan span)).parts = (expression e).parts := by
  cases e <;> rfl

end Node

/-- The nodes of a module: its statements, and all that are below others. -/
inductive Module.Has (m : Module) : Node → Prop
  | item {s : Stmt} (hs : s ∈ m.body) : m.Has (.statement s)
  | part {x y : Node} (hx : m.Has x) (hy : y ∈ x.parts) : m.Has y

/-- The nodes right below a passage. -/
def Passage.parts : Passage → List Node
  | expression e => (Node.expression e).parts
  | arguments es => es.map .expression
  | parameters _ => []
  | statement s | conditional s => (Node.statement s).parts
  | block b | statements b | items b => b.map .statement

theorem Node.parts_passage (x : Node) : x.passage.parts = x.parts := by
  cases x <;> rfl

/-- Nodes stand one behind the other over some of the tokens. -/
inductive Laid : List Node → List Token → Prop
  | nil (ts : List Token) : Laid [] ts
  | cons {x : Node} {xs : List Node} {ts us : List Token} (gap : List Token)
      (hfirst : Over x.passage ts) (hrest : Laid xs us) : Laid (x :: xs) (gap ++ (ts ++ us))

namespace Laid

variable {xs ys : List Node} {x : Node} {ts us : List Token}

theorem single (h : Over x.passage ts) : Laid [x] ts := by
  have hlaid := Laid.cons [] h (.nil [])
  rwa [List.nil_append, List.append_nil] at hlaid

/-- Nodes stay in a row behind a gap. -/
theorem behind (gap : List Token) (h : Laid xs ts) : Laid xs (gap ++ ts) := by
  cases h with
  | nil => exact .nil _
  | cons gap' hfirst hrest =>
    rw [← List.append_assoc]
    exact .cons _ hfirst hrest

/-- Two rows of nodes make one. -/
theorem append (h : Laid xs ts) (h' : Laid ys us) : Laid (xs ++ ys) (ts ++ us) := by
  induction h with
  | nil ts => exact h'.behind ts
  | cons gap hfirst _ ih =>
    rw [List.append_assoc, List.append_assoc]
    exact .cons gap hfirst ih

theorem before (h : Laid xs ts) (us : List Token) : Laid xs (ts ++ us) := by
  have hlaid := h.append (.nil us)
  rwa [List.append_nil] at hlaid

/-- Every one of the nodes has its tokens among those given. -/
theorem exists_tokens (h : Laid xs ts) (hx : x ∈ xs) :
    ∃ before us behind, ts = before ++ (us ++ behind) ∧ Over x.passage us := by
  induction h with
  | nil => cases hx
  | @cons y ys vs ws gap hfirst _ ih =>
    rcases List.mem_cons.mp hx with rfl | hx
    · exact ⟨gap, vs, ws, rfl, hfirst⟩
    · obtain ⟨before, us, behind, rfl, hover⟩ := ih hx
      refine ⟨gap ++ (vs ++ before), us, behind, ?_, hover⟩
      simp only [List.append_assoc]

end Laid

/-- The parts of what stands over some tokens stand over some of them, one behind the other. -/
theorem Over.laid {p : Passage} {ts : List Token} (h : Over p ts) : Laid p.parts ts := by
  induction h with
  -- These passages have no nodes below them.
  | literal | name | noArgument | noParameter | lastParameter | parameter | returnStmt | breakStmt
  | continueStmt | noStatement | noItem => exact .nil _
  | call callee opening gap closing _ hts ih =>
    rw [hts]
    exact ((ih.before [closing.token]).behind gap.tokens).behind [callee.token, opening.token]
  | group opening gap gap' closing _ hts ih =>
    -- Parentheses have the parts of what stands inside of them.
    rw [hts, Passage.parts, Node.parts_withSpan]
    exact ((ih.before (gap'.tokens ++ [closing.token])).behind gap.tokens).behind [opening.token]
  | binary t _ hleft hright hts =>
    rw [hts]
    exact (Laid.single (x := .expression _) hleft).append
      ((Laid.single (x := .expression _) hright).behind [t])
  | lastArgument gap hlast => exact (Laid.single (x := .expression _) hlast).before gap.tokens
  | argument gap comma gap' hfirst _ _ ih =>
    exact (Laid.single (x := .expression _) hfirst).append
      (((ih.behind gap'.tokens).behind [comma.token]).behind gap.tokens)
  | letStmt word x mark hvalue hts =>
    rw [hts]
    exact (Laid.single (x := .expression _) hvalue).behind [word.token, x.token, mark.token]
  | fnStmt word name opening gap closing _ _ hts _ ih =>
    rw [hts]
    exact (((ih.behind [closing.token]).behind _).behind gap.tokens).behind
      [word.token, name.token, opening.token]
  | returnValue word hvalue hts =>
    rw [hts]
    exact (Laid.single (x := .expression _) hvalue).behind [word.token]
  | exprStmt hvalue => exact Laid.single (x := .expression _) hvalue
  | whileStmt word hcond _ hts _ ih | ifStmt word hcond _ hts _ ih =>
    rw [hts]
    exact ((Laid.single (x := .expression _) hcond).append ih).behind [word.token]
  | conditional _ ih => exact ih
  | ifElseIf word gap word' hcond _ hother hts _ ih _ =>
    rw [hts]
    have hlaid := (Laid.single (x := .statement _) (.conditional hother)).behind [word'.token]
    exact ((Laid.single (x := .expression _) hcond).append
      (ih.append (hlaid.behind gap.tokens))).behind [word.token]
  | ifElse word gap word' hcond _ _ hts _ ih ihother =>
    rw [hts]
    exact ((Laid.single (x := .expression _) hcond).append
      (ih.append ((ihother.behind [word'.token]).behind gap.tokens))).behind [word.token]
  | block gap opening gap' closing _ ih =>
    have hinner := (ih.before [closing.token]).behind gap'.tokens
    exact (hinner.behind [opening.token]).behind gap.tokens
  | statements gap hfirst _ _ ih =>
    exact (Laid.single (x := .statement _) hfirst).append (ih.behind gap.tokens)
  | items _ hfirst _ _ ih => exact ((Laid.single (x := .statement _) hfirst).append ih).behind _

namespace Over

variable {ts : List Token}

/-- The span of an expression is the extent of its tokens, of which there is at least one. -/
theorem expression_span {e : Expr} (h : Over (.expression e) ts) :
    ts ≠ [] ∧ e.span = extent ts := by
  cases h with
  | literal | name => exact ⟨List.cons_ne_nil _ _, rfl⟩
  | call _ _ _ _ _ hts => exact ⟨by rw [hts]; exact List.cons_ne_nil _ _, rfl⟩
  | group _ _ _ _ _ hts => exact ⟨by rw [hts]; exact List.cons_ne_nil _ _, Expr.span_withSpan ..⟩
  | binary _ _ _ _ hts =>
    exact ⟨by rw [hts]; exact List.append_ne_nil_of_right_ne_nil _ (List.cons_ne_nil _ _), rfl⟩

/-- The span of a conditional is the extent of its tokens, of which there is at least one. -/
theorem conditional_span {s : Stmt} (h : Over (.conditional s) ts) :
    ts ≠ [] ∧ s.span = extent ts := by
  cases h with
  | ifStmt _ _ _ hts | ifElseIf _ _ _ _ _ _ hts | ifElse _ _ _ _ _ _ hts =>
    exact ⟨by rw [hts]; exact List.cons_ne_nil _ _, rfl⟩

/-- The span of a statement is the extent of its tokens, of which there is at least one. -/
theorem statement_span {s : Stmt} (h : Over (.statement s) ts) :
    ts ≠ [] ∧ s.span = extent ts := by
  cases h with
  | letStmt _ _ _ _ hts | fnStmt _ _ _ _ _ _ _ hts | returnValue _ _ hts | whileStmt _ _ _ hts =>
    exact ⟨by rw [hts]; exact List.cons_ne_nil _ _, rfl⟩
  | returnStmt | breakStmt | continueStmt => exact ⟨List.cons_ne_nil _ _, rfl⟩
  | exprStmt hvalue => exact ⟨hvalue.expression_span.1, rfl⟩
  | conditional h => exact h.conditional_span

/-- A node stands over at least one token, and its span is the extent of its tokens. -/
theorem node_span {x : Node} (h : Over x.passage ts) : ts ≠ [] ∧ x.span = extent ts := by
  cases x with
  | expression e => exact expression_span h
  | statement s => exact statement_span h

end Over

namespace Laid

variable {xs : List Node} {ts : List Token}

/-- Nodes that stand over some tokens lie inside of their extent. -/
theorem span_inside (h : Laid xs ts) (hts : Token.InOrder ts) {x : Node} (hx : x ∈ xs) :
    (extent ts).start ≤ x.span.start ∧ x.span.stop ≤ (extent ts).stop := by
  obtain ⟨before, us, behind, rfl, hover⟩ := h.exists_tokens hx
  obtain ⟨hne, hspan⟩ := hover.node_span
  rw [hspan]
  exact hts.extent_inside hne fun t ht =>
    List.mem_append_right _ (List.mem_append_left _ ht)

/-- Nodes that stand one behind the other have spans that do. -/
theorem pairwise (h : Laid xs ts) (hts : Token.InOrder ts) :
    xs.Pairwise fun x y => x.span.stop ≤ y.span.start := by
  induction h with
  | nil => exact .nil
  | @cons x xs us rest gap hfirst hrest ih =>
    refine .cons (fun y hy => ?_) (ih hts.right.right)
    obtain ⟨before, vs, behind, rfl, hover⟩ := hrest.exists_tokens hy
    obtain ⟨hus, hx⟩ := hfirst.node_span
    obtain ⟨hvs, hy⟩ := hover.node_span
    rw [hx, hy]
    have happart : Token.InOrder (us ++ vs) :=
      hts.right.sublist (List.Sublist.append_left
        ((List.sublist_append_left vs behind).trans (List.sublist_append_right before _)) us)
    exact happart.extent_stop_le hus hvs

end Laid

/-- The nodes of a module that stands over some tokens have their tokens among these. -/
theorem Over.exists_tokens {m : Module} {ts : List Token} (h : Over (.items m.body) ts) {x : Node}
    (hx : m.Has x) : ∃ before us behind, ts = before ++ (us ++ behind) ∧ Over x.passage us := by
  induction hx with
  | item hs => exact h.laid.exists_tokens (List.mem_map_of_mem hs)
  | @part x y _ hy ih =>
    obtain ⟨before, us, behind, rfl, hover⟩ := ih
    rw [← x.parts_passage] at hy
    obtain ⟨before', vs, behind', rfl, hover'⟩ := hover.laid.exists_tokens hy
    refine ⟨before ++ before', vs, behind' ++ behind, ?_, hover'⟩
    simp only [List.append_assoc]

end Scriptlet
