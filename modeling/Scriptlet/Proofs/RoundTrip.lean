import Scriptlet.Proofs.Reading
import Scriptlet.Proofs.Surface

/-!
# Reading what was written

Reading the tokens of a statement, of a block and of a module gives what was written, numbered in
the order in which it was written.  So parsing is the inverse of writing modules of the surface
language down (`Module.parse_rendered`).
-/

namespace Scriptlet

namespace Parse

/-! ## Line ends -/

/-- What stands behind a statement: a line end, and no `else` on one of the next lines. -/
structure AtLineEnd (rest : List Token) : Prop where
  newline : ∃ n us, rest = n :: us ∧ n.kind = .newline
  noElse : ∀ t ∈ (rest.dropWhile fun t => t.kind == .newline).head?, t.kind ≠ .keyword .elseWord

/-- A line end ends every expression. -/
theorem ends_of_newline {n : Token} (hn : n.kind = .newline) (rest : List Token) :
    Ends 0 (n :: rest) := by
  apply ends_of_kind hn
  intro mark hmark
  cases hmark

/-- The end of a line ends every expression. -/
theorem AtLineEnd.ends {rest : List Token} (h : AtLineEnd rest) : Ends 0 rest := by
  obtain ⟨n, us, rfl, hn⟩ := h.newline
  exact ends_of_newline hn us

/-- A line end before a token that is neither a line end nor `else`. -/
theorem AtLineEnd.of_newline {n t : Token} {ts : List Token} (hn : n.kind = .newline)
    (ht : t.kind ≠ .newline) (helse : t.kind ≠ .keyword .elseWord) : AtLineEnd (n :: t :: ts) := by
  refine ⟨⟨n, t :: ts, rfl, hn⟩, fun u hu => ?_⟩
  rw [List.dropWhile_cons_of_pos (by rw [hn]; rfl),
    List.dropWhile_cons_of_neg (by rwa [beq_iff_eq])] at hu
  cases hu
  exact helse

section Gaps

variable {c : Cursor} {t : Token} {gap ts : List Token}

/-- Tokens in a gap are skipped up to the first that is not to be skipped. -/
theorem ahead_skipWhile {p : Token → Bool} (hgap : ∀ n ∈ gap, p n = true) (ht : p t = false)
    (hahead : c.ahead = gap ++ t :: ts) : (c.skipWhile p).ahead = t :: ts := by
  show c.ahead.dropWhile p = t :: ts
  rw [hahead, List.dropWhile_append_of_pos hgap,
    List.dropWhile_cons_of_neg (by rw [ht]; exact Bool.false_ne_true)]

/-- The word `else` is found behind line ends. -/
theorem exists_passElse? (hgap : ∀ n ∈ gap, n.kind = .newline) (ht : t.kind = .keyword .elseWord)
    (hahead : c.ahead = gap ++ t :: ts) :
    ∃ c', c.passElse? = some c' ∧ c'.nextId = c.nextId ∧ c'.ahead = ts := by
  have hskip : c.skipNewlines.ahead = t :: ts :=
    ahead_skipWhile (fun n hn => by rw [hgap n hn]; rfl) (by rw [ht]; rfl) hahead
  refine ⟨c.skipNewlines.advance, ?_, ?_, Cursor.ahead_advance hskip⟩
  · rw [Cursor.passElse?, if_pos]
    rw [Cursor.atWord_of_ahead hskip, ht]
    rfl
  · exact Cursor.nextId_advance _

/-- At the end of a line there is no `else` to go on with. -/
theorem passElse?_eq_none (h : AtLineEnd c.ahead) : c.passElse? = none := by
  have hword : c.skipNewlines.atWord .elseWord = false := by
    cases hskip : c.skipNewlines.ahead with
    | nil => simp [Cursor.atWord, Cursor.peek, hskip, Token.endAt, Token.isKeyword]
    | cons t ts =>
      rw [Cursor.atWord_of_ahead hskip, beq_eq_false_iff_ne]
      apply h.noElse
      have hdrop : c.ahead.dropWhile (fun t => t.kind == .newline) = t :: ts := hskip
      rw [hdrop]
      rfl
  rw [Cursor.passElse?, hword]
  rfl

end Gaps

/-! ## Statements without blocks -/

section Simple

variable {d : Nat} {c : Cursor} {t : Token} {ts rest : List Token} {e : Expr}

/-- The tokens of a declaration are read as this declaration. -/
theorem reads_letDecl {x eq : Token} (hahead : c.ahead = t :: x :: eq :: (ts ++ rest))
    (ht : t.kind = .keyword .letWord) (hx : x.kind = .identifier) (heq : eq.kind = .operator .eq)
    (hvalue : e.Renders 0 ts) (hrest : Ends 0 rest) (hdepth : 4 * ts.length ≤ d) :
    Reads Stmt.unspanned (letDecl d c) (.letStmt .zero x.text (some (e.numbered c.nextId)))
      (c.nextId + e.uses) rest := by
  have hahead₁ := c.ahead_advance hahead
  have hahead₂ := Cursor.ahead_advance hahead₁
  obtain ⟨e', c', hread, he', hnext, hrest'⟩ :=
    reads_expr hvalue hrest (Cursor.ahead_advance hahead₂) hdepth
  simp only [Cursor.nextId_advance] at he' hnext
  refine ⟨.letStmt (c'.spanSince t.span) x.text (some e'), c', ?_, ?_, hnext, hrest'⟩
  · simp only [letDecl, c.expectWord_of_ahead hahead ht, bind, Except.bind,
      Cursor.expectName_of_ahead hahead₁ hx, Cursor.expectMark_of_ahead hahead₂ heq, hread]
    rfl
  · rw [Stmt.unspanned, Option.map_some, he']

/-- The word `let` starts a declaration. -/
theorem statement_of_let (hahead : c.ahead = t :: ts) (ht : t.kind = .keyword .letWord) :
    statement (d + 1) c = letDecl d c := by
  simp [statement, Cursor.atWord_of_ahead hahead, ht]

/-- The word `if` starts a conditional. -/
theorem statement_of_if (hahead : c.ahead = t :: ts) (ht : t.kind = .keyword .ifWord) :
    statement (d + 1) c = conditional d c := by
  simp [statement, Cursor.atWord_of_ahead hahead, ht]

/-- A return at the end of a line is read without a value. -/
theorem reads_returnNone (hahead : c.ahead = t :: rest) (ht : t.kind = .keyword .returnWord)
    (hrest : AtLineEnd rest) :
    Reads Stmt.unspanned (statement (d + 1) c) (.returnStmt .zero none) c.nextId rest := by
  have hahead' := c.ahead_advance hahead
  have hend : atStatementEnd c.advance = true := by
    obtain ⟨n, us, rfl, hn⟩ := hrest.newline
    simp [atStatementEnd, Cursor.peek_of_ahead hahead', hn]
  refine ⟨.returnStmt (c.advance.spanSince t.span) none, c.advance, ?_, ?_, c.nextId_advance,
    hahead'⟩
  · simp [statement, Cursor.atWord_of_ahead hahead, ht, c.peek_of_ahead hahead, hend]
  · rw [Stmt.unspanned, Option.map_none]

/-- A return and the tokens of a value are read as a return with this value. -/
theorem reads_returnSome (hahead : c.ahead = t :: (ts ++ rest))
    (ht : t.kind = .keyword .returnWord) (hvalue : e.Renders 0 ts) (hrest : Ends 0 rest)
    (hdepth : 4 * ts.length ≤ d) :
    Reads Stmt.unspanned (statement (d + 1) c) (.returnStmt .zero (some (e.numbered c.nextId)))
      (c.nextId + e.uses) rest := by
  have hahead' := c.ahead_advance hahead
  have hend : atStatementEnd c.advance = false := by
    obtain ⟨u, us, rfl, hu⟩ := hvalue.exists_first
    have hnewline : (u.kind == .newline) = false := Token.kind_beq_eq_false hu rfl
    have hsemicolon : (u.kind == .operator .semicolon) = false := Token.kind_beq_eq_false hu rfl
    have hbrace : (u.kind == .operator .rBrace) = false := Token.kind_beq_eq_false hu rfl
    simp only [atStatementEnd, Cursor.atEnd, hahead', Cursor.atMark_of_ahead hahead',
      Cursor.peek_of_ahead hahead', hnewline, hsemicolon, hbrace]
    rfl
  obtain ⟨e', c', hread, he', hnext, hrest'⟩ := reads_expr hvalue hrest hahead' hdepth
  rw [c.nextId_advance] at he' hnext
  refine ⟨.returnStmt (c'.spanSince t.span) (some e'), c', ?_, ?_, hnext, hrest'⟩
  · simp [statement, Cursor.atWord_of_ahead hahead, ht, c.peek_of_ahead hahead, hend, hread, bind,
      Except.bind, pure, Except.pure]
  · rw [Stmt.unspanned, Option.map_some, he']

/-- The name `break` is read as a statement. -/
theorem reads_breakStmt (hahead : c.ahead = t :: rest) (ht : t.isName breakName = true) :
    Reads Stmt.unspanned (statement (d + 1) c) (.breakStmt .zero) c.nextId rest := by
  refine ⟨.breakStmt t.span, c.advance, ?_, by rw [Stmt.unspanned], c.nextId_advance,
    c.ahead_advance hahead⟩
  simp [statement, Cursor.atWord_of_ahead hahead, Token.kind_of_isName ht, c.peek_of_ahead hahead,
    ht]

/-- The name `continue` is read as a statement. -/
theorem reads_continueStmt (hahead : c.ahead = t :: rest) (ht : t.isName continueName = true) :
    Reads Stmt.unspanned (statement (d + 1) c) (.continueStmt .zero) c.nextId rest := by
  have hbreak : t.isName breakName = false := by
    rw [Token.isName, Bool.and_eq_true, beq_iff_eq, beq_iff_eq] at ht
    rw [Token.isName, ht.2]
    exact Bool.and_false _
  refine ⟨.continueStmt t.span, c.advance, ?_, by rw [Stmt.unspanned], c.nextId_advance,
    c.ahead_advance hahead⟩
  simp [statement, Cursor.atWord_of_ahead hahead, Token.kind_of_isName ht, c.peek_of_ahead hahead,
    ht, hbreak]

/-- The tokens of an expression are read as a statement, unless they start with one of the names
that are statements by themselves. -/
theorem reads_exprStmt (hahead : c.ahead = ts ++ rest) (hvalue : e.Renders 0 ts)
    (hfirst : ∀ t ∈ ts.head?, t.isName breakName = false ∧ t.isName continueName = false)
    (hrest : Ends 0 rest) (hdepth : 4 * ts.length ≤ d) :
    Reads Stmt.unspanned (statement (d + 1) c) (.exprStmt .zero (e.numbered c.nextId))
      (c.nextId + e.uses) rest := by
  obtain ⟨e', c', hread, he', hnext, hrest'⟩ := reads_expr hvalue hrest hahead hdepth
  obtain ⟨u, us, rfl, hu⟩ := hvalue.exists_first
  obtain ⟨hbreak, hcontinue⟩ := hfirst u rfl
  -- none of the words that start another statement stands here
  have hword {word : Keyword} (hword : (TokenKind.keyword word).startsExpr = false) :
      c.atWord word = false := by
    rw [Cursor.atWord_of_ahead hahead]
    exact Token.kind_beq_eq_false hu hword
  have hlet : c.atWord .letWord = false := hword rfl
  have hreturn : c.atWord .returnWord = false := hword rfl
  have hif : c.atWord .ifWord = false := hword rfl
  have hwhile : c.atWord .whileWord = false := hword rfl
  refine ⟨.exprStmt e'.span e', c', ?_, by rw [Stmt.unspanned, he'], hnext, hrest'⟩
  simp only [statement, hlet, hreturn, hif, hwhile, c.peek_of_ahead hahead, hbreak, hcontinue,
    hread]
  rfl

end Simple

/-! ## Statements with blocks -/

section Compound

variable {d : Nat} {c : Cursor} {t : Token} {us us' rest : List Token} {cond : Expr}
  {body other : List Stmt} {n n' n'' : Nat}

/-- A loop is read if its condition and its body are. -/
theorem reads_whileStmt (hahead : c.ahead = t :: us) (ht : t.kind = .keyword .whileWord)
    (hcond : Reads Expr.unspanned (binary d 0 c.advance) cond n us')
    (hbody : ∀ c' : Cursor, c'.nextId = n → c'.ahead = us' →
      Reads Stmt.unspannedAll (block d c') body n' rest) :
    Reads Stmt.unspanned (statement (d + 1) c) (.whileStmt .zero cond body) n' rest := by
  obtain ⟨cond', c₁, hread₁, rfl, hnext₁, hrest₁⟩ := hcond
  obtain ⟨body', c₂, hread₂, rfl, hnext₂, hrest₂⟩ := hbody c₁ hnext₁ hrest₁
  refine ⟨.whileStmt (c₂.spanSince t.span) cond' body', c₂, ?_, by rw [Stmt.unspanned], hnext₂,
    hrest₂⟩
  simp [statement, Cursor.atWord_of_ahead hahead, ht, c.peek_of_ahead hahead, hread₁, hread₂, bind,
    Except.bind, pure, Except.pure]

/-- A conditional that ends its line is read without an alternative. -/
theorem reads_ifStmt (hahead : c.ahead = t :: us) (ht : t.kind = .keyword .ifWord)
    (hcond : Reads Expr.unspanned (binary d 0 c.advance) cond n us')
    (hbody : ∀ c' : Cursor, c'.nextId = n → c'.ahead = us' →
      Reads Stmt.unspannedAll (block d c') body n' rest) (hrest : AtLineEnd rest) :
    Reads Stmt.unspanned (conditional (d + 1) c) (.ifStmt .zero cond body) n' rest := by
  obtain ⟨cond', c₁, hread₁, rfl, hnext₁, hrest₁⟩ := hcond
  obtain ⟨body', c₂, hread₂, rfl, hnext₂, rfl⟩ := hbody c₁ hnext₁ hrest₁
  refine ⟨.ifStmt (c₂.spanSince t.span) cond' body', c₂, ?_, by rw [Stmt.unspanned], hnext₂, rfl⟩
  simp [conditional, c.expectWord_of_ahead hahead ht, hread₁, hread₂, passElse?_eq_none hrest, bind,
    Except.bind, pure, Except.pure]

/-- A conditional is read with the block behind its `else`, also if line ends stand before this
word. -/
theorem reads_ifElseStmt {gap os : List Token} {word : Token} (hahead : c.ahead = t :: us)
    (ht : t.kind = .keyword .ifWord)
    (hcond : Reads Expr.unspanned (binary d 0 c.advance) cond n us')
    (hbody : ∀ c' : Cursor, c'.nextId = n → c'.ahead = us' →
      Reads Stmt.unspannedAll (block d c') body n' (gap ++ word :: os))
    (hgap : ∀ x ∈ gap, x.kind = .newline) (hword : word.kind = .keyword .elseWord)
    (hother : ∀ c' : Cursor, c'.nextId = n' → c'.ahead = os → c'.atWord .ifWord = false ∧
      Reads Stmt.unspannedAll (block d c') other n'' rest) :
    Reads Stmt.unspanned (conditional (d + 1) c) (.ifElseStmt .zero cond body other) n'' rest := by
  obtain ⟨cond', c₁, hread₁, rfl, hnext₁, hrest₁⟩ := hcond
  obtain ⟨body', c₂, hread₂, rfl, hnext₂, hrest₂⟩ := hbody c₁ hnext₁ hrest₁
  obtain ⟨c₃, hpass, hnext₃, hrest₃⟩ := exists_passElse? hgap hword hrest₂
  obtain ⟨hif, other', c₄, hread₄, rfl, hnext₄, hrest₄⟩ := hother c₃ (hnext₃.trans hnext₂) hrest₃
  refine ⟨.ifElseStmt (c₄.spanSince t.span) cond' body' other', c₄, ?_, by rw [Stmt.unspanned],
    hnext₄, hrest₄⟩
  simp [conditional, c.expectWord_of_ahead hahead ht, hread₁, hread₂, hpass, hif, hread₄, bind,
    Except.bind, pure, Except.pure]

/-- A conditional behind an `else` is read as a block with nothing else in it. -/
theorem reads_elseIfStmt {gap os : List Token} {word : Token} {second : Stmt}
    (hahead : c.ahead = t :: us) (ht : t.kind = .keyword .ifWord)
    (hcond : Reads Expr.unspanned (binary d 0 c.advance) cond n us')
    (hbody : ∀ c' : Cursor, c'.nextId = n → c'.ahead = us' →
      Reads Stmt.unspannedAll (block d c') body n' (gap ++ word :: os))
    (hgap : ∀ x ∈ gap, x.kind = .newline) (hword : word.kind = .keyword .elseWord)
    (hother : ∀ c' : Cursor, c'.nextId = n' → c'.ahead = os → c'.atWord .ifWord = true ∧
      Reads Stmt.unspanned (conditional d c') second n'' rest) :
    Reads Stmt.unspanned (conditional (d + 1) c) (.ifElseStmt .zero cond body [second]) n''
      rest := by
  obtain ⟨cond', c₁, hread₁, rfl, hnext₁, hrest₁⟩ := hcond
  obtain ⟨body', c₂, hread₂, rfl, hnext₂, hrest₂⟩ := hbody c₁ hnext₁ hrest₁
  obtain ⟨c₃, hpass, hnext₃, hrest₃⟩ := exists_passElse? hgap hword hrest₂
  obtain ⟨hif, second', c₄, hread₄, rfl, hnext₄, hrest₄⟩ := hother c₃ (hnext₃.trans hnext₂) hrest₃
  refine ⟨.ifElseStmt (c₄.spanSince t.span) cond' body' [second'], c₄, ?_, ?_, hnext₄, hrest₄⟩
  · simp [conditional, c.expectWord_of_ahead hahead ht, hread₁, hread₂, hpass, hif, hread₄, bind,
      Except.bind, pure, Except.pure]
  · rw [Stmt.unspanned, Stmt.unspannedAll, Stmt.unspannedAll]

end Compound

/-! ## Blocks -/

/-- A statement, or the brace that closes a block, stands first. -/
def StartsLine (us : List Token) : Prop :=
  ∃ t ts, us = t :: ts ∧ (t.kind.startsStmt = true ∨ t.kind = .operator .rBrace)

/-- The lines of a block, with its closing brace behind them, start a line. -/
theorem startsLine_of_lines {ss : List Stmt} {ts : List Token} (h : Stmt.RendersLines ss ts)
    {closing : Token} (hclosing : closing.kind = .operator .rBrace) (rest : List Token) :
    StartsLine (ts ++ closing :: rest) := by
  cases h with
  | nil => exact ⟨closing, rest, rfl, .inr hclosing⟩
  | cons h _ _ =>
    obtain ⟨t, us, rfl, ht⟩ := h.exists_first
    exact ⟨t, _, rfl, .inl ht⟩

/-- Behind a line end, what starts a line does not go on with the statement before. -/
theorem StartsLine.atLineEnd {us : List Token} (h : StartsLine us) {n : Token}
    (hn : n.kind = .newline) : AtLineEnd (n :: us) := by
  obtain ⟨t, ts, rfl, ht | ht⟩ := h
  · exact .of_newline hn (beq_eq_false_iff_ne.mp (Token.kind_beq_eq_false ht rfl))
      (beq_eq_false_iff_ne.mp (Token.kind_beq_eq_false ht rfl))
  · exact .of_newline hn (by rw [ht]; nofun) (by rw [ht]; nofun)

/-- Line ends are skipped before a statement or the end of a block, and nothing else. -/
theorem StartsLine.ahead_skipSeparators {us gap : List Token} (h : StartsLine us)
    (hgap : ∀ n ∈ gap, n.kind = .newline) {c : Cursor} (hahead : c.ahead = gap ++ us) :
    c.skipSeparators.ahead = us := by
  obtain ⟨t, ts, rfl, ht⟩ := h
  refine ahead_skipWhile (fun n hn => ?_) ?_ hahead
  · rw [hgap n hn]
    rfl
  · rw [Bool.or_eq_false_iff, Token.isOperator]
    rcases ht with ht | ht
    · exact ⟨Token.kind_beq_eq_false ht rfl, Token.kind_beq_eq_false ht rfl⟩
    · rw [ht]
      exact ⟨rfl, rfl⟩

section Blocks

variable {d : Nat} {c : Cursor} {t : Token} {gap us rest : List Token} {body : List Stmt} {n : Nat}

/-- A block is read if its statements are read behind the opening brace and the line ends that
follow it. -/
theorem reads_block_of_statements (closing : Token)
    (hahead : c.ahead = t :: (gap ++ us)) (ht : t.kind = .operator .lBrace)
    (hgap : ∀ x ∈ gap, x.kind = .newline)
    (hfirst : StartsLine us)
    (hbody : ∀ (opened : Span) (c' : Cursor), c'.nextId = c.nextId → c'.ahead = us →
      Reads Stmt.unspannedAll (statements d opened c') body n (closing :: rest)) :
    Reads Stmt.unspannedAll (block (d + 1) c) body n rest := by
  have hskip : c.skipNewlines = c := skipNewlines_of_operator hahead ht
  have hahead' : c.advance.skipSeparators.ahead = us :=
    hfirst.ahead_skipSeparators hgap (c.ahead_advance hahead)
  obtain ⟨body', c', hread, rfl, hnext, hrest⟩ :=
    hbody t.span c.advance.skipSeparators c.nextId_advance hahead'
  refine ⟨body', c'.advance, ?_, rfl, by rw [c'.nextId_advance, hnext], c'.ahead_advance hrest⟩
  simp [block, hskip, c.expectMark_of_ahead hahead ht, hread, bind, Except.bind, pure, Except.pure]

/-- A closing brace ends the statements of a block before the first one. -/
theorem reads_no_statements {opened : Span} (hahead : c.ahead = t :: rest)
    (ht : t.kind = .operator .rBrace) :
    Reads Stmt.unspannedAll (statements (d + 1) opened c) [] c.nextId (t :: rest) := by
  have hmark : c.atMark .rBrace = true := by
    rw [Cursor.atMark_of_ahead hahead, ht]
    rfl
  exact ⟨[], c, by rw [statements, if_pos hmark], by rw [Stmt.unspannedAll], rfl, hahead⟩

/-- A statement and a line end are followed by the other statements of the block. -/
theorem reads_next_statement {opened : Span} {s : Stmt} {n' : Nat} {newline : Token}
    (hahead : c.ahead = t :: us) (ht : t.kind.startsStmt = true)
    (hs : Reads Stmt.unspanned (statement d c) s n (newline :: rest))
    (hnewline : newline.kind = .newline)
    (hfirst : StartsLine rest) {rest' : List Token}
    (hbody : ∀ c' : Cursor, c'.nextId = n → c'.ahead = rest →
      Reads Stmt.unspannedAll (statements d opened c') body n' rest') :
    Reads Stmt.unspannedAll (statements (d + 1) opened c) (s :: body) n' rest' := by
  have hmark : c.atMark .rBrace = false := by
    rw [Cursor.atMark_of_ahead hahead]
    exact Token.kind_beq_eq_false ht rfl
  have hend : c.atEnd = false := by
    rw [Cursor.atEnd, hahead]
    rfl
  obtain ⟨s', c', hread, rfl, hnext, hrest⟩ := hs
  have hahead' := hfirst.ahead_skipSeparators (List.forall_mem_singleton.mpr hnewline) hrest
  obtain ⟨body', c'', hread', rfl, hnext', hrest'⟩ := hbody c'.skipSeparators hnext hahead'
  refine ⟨s' :: body', c'', ?_, by rw [Stmt.unspannedAll], hnext', hrest'⟩
  simp [statements, hmark, hend, hread, hread', bind, Except.bind, pure, Except.pure]

end Blocks

/-- A block is written with an opening brace first. -/
theorem exists_first_of_block {ss : List Stmt} {bs : List Token} (h : Stmt.RendersBlock ss bs) :
    ∃ t us, bs = t :: us ∧ t.kind = .operator .lBrace := by
  cases h with
  | block hopening _ _ _ => exact ⟨_, _, rfl, hopening⟩

/-- The condition of a statement is read up to its block. -/
theorem reads_condition {cond : Expr} {ss : List Stmt} {t : Token} {cs bs rest : List Token}
    {d : Nat} {c : Cursor} (hahead : c.ahead = t :: (cs ++ (bs ++ rest)))
    (hcond : cond.Renders 0 cs) (hbody : Stmt.RendersBlock ss bs) (hdepth : 4 * cs.length ≤ d) :
    Reads Expr.unspanned (binary d 0 c.advance) (cond.numbered c.nextId) (c.nextId + cond.uses)
      (bs ++ rest) := by
  have hends : Ends 0 (bs ++ rest) := by
    obtain ⟨u, us, rfl, hu⟩ := exists_first_of_block hbody
    exact ends_of_operator hu (by decide) (us ++ rest)
  have hread := reads_expr hcond hends (c.ahead_advance hahead) hdepth
  rwa [c.nextId_advance] at hread

mutual

/-- Reading the tokens of a statement gives the statement. -/
theorem reads_statement : ∀ {s : Stmt} {ts : List Token}, s.Renders ts →
    ∀ {d : Nat} {c : Cursor} {rest : List Token}, AtLineEnd rest → c.ahead = ts ++ rest →
      4 * ts.length ≤ d →
      Reads Stmt.unspanned (statement (d + 1) c) (s.numbered c.nextId) (c.nextId + s.uses) rest
  | _, _, @Stmt.Renders.letStmt _ value t x eq ts ht hx heq hvalue, d, c, rest, hrest, hahead,
      hdepth => by
    rw [statement_of_let hahead ht, Stmt.numbered, Stmt.uses]
    exact reads_letDecl hahead ht hx heq hvalue hrest.ends (by simp at hdepth; omega)
  | _, _, .returnNone ht, d, c, rest, hrest, hahead, _ => by
    rw [Stmt.numbered, Stmt.uses]
    exact reads_returnNone hahead ht hrest
  | _, _, .returnSome ht hvalue, d, c, rest, hrest, hahead, hdepth => by
    rw [Stmt.numbered, Stmt.uses]
    exact reads_returnSome hahead ht hvalue hrest.ends (by simp at hdepth; omega)
  | _, _, .breakStmt ht, d, c, rest, _, hahead, _ => by
    rw [Stmt.numbered, Stmt.uses]
    exact reads_breakStmt hahead ht
  | _, _, .continueStmt ht, d, c, rest, _, hahead, _ => by
    rw [Stmt.numbered, Stmt.uses]
    exact reads_continueStmt hahead ht
  | _, _, @Stmt.Renders.ifStmt _ cond body t cs bs ht hcond hbody, d, c, rest, hrest, hahead,
      hdepth => by
    obtain ⟨d, rfl⟩ : ∃ d', d = d' + 1 := ⟨d - 1, by simp at hdepth; omega⟩
    simp only [List.length_cons, List.length_append] at hdepth
    rw [List.cons_append, List.append_assoc] at hahead
    rw [statement_of_if hahead ht, Stmt.numbered, Stmt.uses, ← Nat.add_assoc]
    refine reads_ifStmt hahead ht (reads_condition hahead hcond hbody (by omega)) ?_ hrest
    intro c' hnext hahead'
    rw [← hnext]
    exact reads_block hbody hahead' (by omega)
  | _, _, @Stmt.Renders.ifElseStmt _ cond body other t word cs bs gap os ht hcond hbody hgap hword
      hother, d, c, rest, hrest, hahead, hdepth => by
    obtain ⟨d, rfl⟩ : ∃ d', d = d' + 1 := ⟨d - 1, by simp at hdepth; omega⟩
    simp only [List.length_cons, List.length_append] at hdepth
    simp only [List.cons_append, List.append_assoc] at hahead
    rw [statement_of_if hahead ht, Stmt.numbered, Stmt.uses, ← Nat.add_assoc, ← Nat.add_assoc]
    have hbody' (c' : Cursor) (hnext : c'.nextId = c.nextId + cond.uses)
        (hahead' : c'.ahead = bs ++ (gap ++ word :: (os ++ rest))) :=
      hnext ▸ reads_block hbody hahead' (show 4 * bs.length ≤ d by omega)
    refine reads_ifElseStmt hahead ht (reads_condition hahead hcond hbody (by omega)) hbody' hgap
      hword fun c' hnext hahead' => ⟨?_, ?_⟩
    · obtain ⟨u, us, rfl, hu⟩ := exists_first_of_block hother
      rw [Cursor.atWord_of_ahead hahead', hu]
      rfl
    · rw [← hnext]
      exact reads_block hother hahead' (by omega)
  | _, _, @Stmt.Renders.elseIfStmt _ cond body other t word cs bs gap os ht hcond hbody hgap hword
      hif hother, d, c, rest, hrest, hahead, hdepth => by
    obtain ⟨d, rfl⟩ : ∃ d', d = d' + 1 := ⟨d - 1, by simp at hdepth; omega⟩
    simp only [List.length_cons, List.length_append] at hdepth
    simp only [List.cons_append, List.append_assoc] at hahead
    rw [statement_of_if hahead ht, Stmt.numbered, Stmt.uses, ← Nat.add_assoc, ← Nat.add_assoc,
      Stmt.numberedAll, Stmt.numberedAll, Stmt.usesIn, Stmt.usesIn, Nat.add_zero]
    have hbody' (c' : Cursor) (hnext : c'.nextId = c.nextId + cond.uses)
        (hahead' : c'.ahead = bs ++ (gap ++ word :: (os ++ rest))) :=
      hnext ▸ reads_block hbody hahead' (show 4 * bs.length ≤ d by omega)
    refine reads_elseIfStmt hahead ht (reads_condition hahead hcond hbody (by omega)) hbody' hgap
      hword fun c' hnext hahead' => ?_
    -- the second `if` is read as if it stood alone
    have hread := reads_statement hother hrest hahead' (show 4 * os.length ≤ d by omega)
    obtain ⟨u, us, rfl, hu⟩ := hother.exists_ifWord hif
    rw [statement_of_if hahead' hu, hnext] at hread
    refine ⟨?_, hread⟩
    rw [Cursor.atWord_of_ahead hahead', hu]
    rfl
  | _, _, @Stmt.Renders.whileStmt _ cond body t cs bs ht hcond hbody, d, c, rest, hrest, hahead,
      hdepth => by
    simp only [List.length_cons, List.length_append] at hdepth
    rw [List.cons_append, List.append_assoc] at hahead
    rw [Stmt.numbered, Stmt.uses, ← Nat.add_assoc]
    refine reads_whileStmt hahead ht (reads_condition hahead hcond hbody (by omega)) ?_
    intro c' hnext hahead'
    rw [← hnext]
    exact reads_block hbody hahead' (by omega)
  | _, _, .exprStmt hvalue hfirst, d, c, rest, hrest, hahead, hdepth => by
    rw [Stmt.numbered, Stmt.uses]
    exact reads_exprStmt hahead hvalue hfirst hrest.ends hdepth

/-- Reading the tokens of a block gives the block. -/
theorem reads_block : ∀ {ss : List Stmt} {ts : List Token}, Stmt.RendersBlock ss ts →
    ∀ {d : Nat} {c : Cursor} {rest : List Token}, c.ahead = ts ++ rest → 4 * ts.length ≤ d →
      Reads Stmt.unspannedAll (block d c) (Stmt.numberedAll ss c.nextId)
        (c.nextId + Stmt.usesIn ss) rest
  | _, _, @Stmt.RendersBlock.block ss opening closing gap ts hopening hgap hlines hclosing, d, c,
      rest, hahead, hdepth => by
    obtain ⟨d, rfl⟩ : ∃ d', d = d' + 1 := ⟨d - 1, by simp at hdepth; omega⟩
    simp only [List.length_cons, List.length_append] at hdepth
    simp only [List.cons_append, List.append_assoc, List.nil_append] at hahead
    have hfirst := startsLine_of_lines hlines hclosing rest
    refine reads_block_of_statements closing hahead hopening hgap hfirst ?_
    intro opened c' hnext hahead'
    rw [← hnext]
    exact reads_statements hlines hclosing hahead' (by omega)

/-- The lines of a block are read as its statements, numbered from the next number on. -/
theorem reads_statements : ∀ {ss : List Stmt} {ts : List Token}, Stmt.RendersLines ss ts →
    ∀ {d : Nat} {c : Cursor} {opened : Span} {closing : Token} {rest : List Token},
      closing.kind = .operator .rBrace → c.ahead = ts ++ closing :: rest → 4 * ts.length < d →
      Reads Stmt.unspannedAll (statements d opened c) (Stmt.numberedAll ss c.nextId)
        (c.nextId + Stmt.usesIn ss) (closing :: rest)
  | _, _, .nil, d, c, opened, closing, rest, hclosing, hahead, hdepth => by
    obtain ⟨d, rfl⟩ : ∃ d', d = d' + 1 := ⟨d - 1, by omega⟩
    rw [Stmt.numberedAll, Stmt.usesIn]
    exact reads_no_statements hahead hclosing
  | _, _, @Stmt.RendersLines.cons s ss newline ts us h hnewline hrest, d, c, opened, closing, rest,
      hclosing, hahead, hdepth => by
    obtain ⟨d, rfl⟩ : ∃ d', d = d' + 2 := ⟨d - 2, by simp at hdepth; omega⟩
    simp only [List.length_cons, List.length_append] at hdepth
    rw [List.append_assoc, List.cons_append] at hahead
    have hlines := startsLine_of_lines hrest hclosing rest
    have hread := reads_statement h (hlines.atLineEnd hnewline) hahead
      (show 4 * ts.length ≤ d by omega)
    obtain ⟨t, ts', rfl, ht⟩ := h.exists_first
    rw [Stmt.numberedAll, Stmt.usesIn, ← Nat.add_assoc]
    refine reads_next_statement hahead ht hread hnewline hlines ?_
    intro c' hnext hahead'
    rw [← hnext]
    exact reads_statements hrest hclosing hahead' (by omega)

end

/-! ## Modules -/

/-- There are no line ends to skip in front of parameters. -/
theorem skipNewlines_of_rendersParams {params : List String} {ps rest : List Token}
    {closing : Token} {c : Cursor} (h : RendersParams params ps)
    (hclosing : closing.kind = .operator .rParen) (hahead : c.ahead = ps ++ closing :: rest) :
    c.skipNewlines = c := by
  cases h with
  | nil => exact skipNewlines_of_operator hahead hclosing
  | one hx => exact c.skipWhile_eq_self hahead (by rw [hx]; rfl)
  | cons hx _ _ => exact c.skipWhile_eq_self hahead (by rw [hx]; rfl)

/-- Reading the tokens of parameters gives the parameters. -/
theorem reads_parameters {params : List String} {ps : List Token} (h : RendersParams params ps) :
    ∀ {d : Nat} {c : Cursor} {closing : Token} {rest : List Token},
      closing.kind = .operator .rParen → c.ahead = ps ++ closing :: rest → ps.length < d →
      Reads id (parameters d c) params c.nextId (closing :: rest) := by
  induction h with
  | nil =>
    intro d c closing rest hclosing hahead hdepth
    obtain ⟨d, rfl⟩ : ∃ d', d = d' + 1 := ⟨d - 1, by omega⟩
    have hmark : c.atMark .rParen = true := by
      rw [Cursor.atMark_of_ahead hahead, hclosing]
      rfl
    exact ⟨[], c, by rw [parameters, if_pos hmark], rfl, rfl, hahead⟩
  | @one x hx =>
    intro d c closing rest hclosing hahead hdepth
    obtain ⟨d, rfl⟩ : ∃ d', d = d' + 1 := ⟨d - 1, by omega⟩
    have hmark : c.atMark .rParen = false := by
      rw [Cursor.atMark_of_ahead hahead, hx]
      rfl
    have hahead' := c.ahead_advance hahead
    -- Behind the last parameter the list is closed.
    have hcomma : c.advance.atMark .comma = false := by
      rw [Cursor.atMark_of_ahead hahead', hclosing]
      rfl
    refine ⟨[x.text], c.advance, ?_, rfl, c.nextId_advance, hahead'⟩
    rw [parameters, hmark]
    simp [c.expectName_of_ahead hahead hx, skipNewlines_of_operator hahead' hclosing, hcomma, bind,
      Except.bind, pure, Except.pure]
  | @cons x comma param params us hx hcomma hrest ih =>
    intro d c closing rest hclosing hahead hdepth
    obtain ⟨d, rfl⟩ : ∃ d', d = d' + 1 := ⟨d - 1, by omega⟩
    simp only [List.length_cons] at hdepth
    have hmark : c.atMark .rParen = false := by
      rw [Cursor.atMark_of_ahead hahead, hx]
      rfl
    have hahead₁ := c.ahead_advance hahead
    have hat : c.advance.atMark .comma = true := by
      rw [Cursor.atMark_of_ahead hahead₁, hcomma]
      rfl
    have hahead₂ : c.advance.advance.ahead = us ++ closing :: rest := Cursor.ahead_advance hahead₁
    -- No line end stands behind the comma.
    have hskip := skipNewlines_of_rendersParams hrest hclosing hahead₂
    obtain ⟨params', c', hread, hparams', hnext, hrest'⟩ :=
      ih hclosing hahead₂ (show us.length < d by omega)
    simp only [Cursor.nextId_advance] at hnext
    refine ⟨x.text :: params', c', ?_, congrArg (x.text :: ·) hparams', hnext, hrest'⟩
    rw [parameters, hmark]
    simp [c.expectName_of_ahead hahead hx, skipNewlines_of_operator hahead₁ hcomma, hat, hskip,
      hread, bind, Except.bind, pure, Except.pure]

/-- The tokens of a function are read as this function. -/
theorem reads_functionDef {d : Nat} {c : Cursor} {params : List String} {body : List Stmt}
    {t f opening closing : Token} {ps bs rest : List Token}
    (hahead : c.ahead = t :: f :: opening :: (ps ++ closing :: (bs ++ rest)))
    (ht : t.kind = .keyword .fnWord) (hf : f.kind = .identifier)
    (hopening : opening.kind = .operator .lParen) (hparams : RendersParams params ps)
    (hclosing : closing.kind = .operator .rParen) (hbody : Stmt.RendersBlock body bs)
    (hps : ps.length < d) (hbs : 4 * bs.length ≤ d) :
    Reads Stmt.unspanned (functionDef d c)
      (.fnStmt .zero f.text params (Stmt.numberedAll body c.nextId))
      (c.nextId + Stmt.usesIn body) rest := by
  have hahead₁ := c.ahead_advance hahead
  have hahead₂ := Cursor.ahead_advance hahead₁
  have hahead₃ := Cursor.ahead_advance hahead₂
  obtain ⟨params', c₁, hread₁, hparams', hnext₁, hrest₁⟩ :=
    reads_parameters hparams hclosing hahead₃ hps
  obtain ⟨body', c₂, hread₂, hbody', hnext₂, hrest₂⟩ :=
    reads_block hbody (c₁.ahead_advance hrest₁) hbs
  simp only [Cursor.nextId_advance] at hnext₁
  rw [c₁.nextId_advance, hnext₁] at hbody' hnext₂
  refine ⟨.fnStmt (c₂.spanSince t.span) f.text params' body', c₂, ?_, ?_, hnext₂, hrest₂⟩
  · simp only [functionDef, c.expectWord_of_ahead hahead ht, bind, Except.bind,
      Cursor.expectName_of_ahead hahead₁ hf, Cursor.expectMark_of_ahead hahead₂ hopening,
      skipNewlines_of_rendersParams hparams hclosing hahead₃, hread₁,
      c₁.expectMark_of_ahead hrest₁ hclosing, hread₂]
    rfl
  · rw [Stmt.unspanned, hbody', show params' = params from hparams']

/-- An item starts with one of the words `let` and `fn`. -/
theorem exists_first_of_item {s : Stmt} {ts : List Token} (h : s.RendersItem ts) :
    ∃ t us, ts = t :: us ∧ (t.kind = .keyword .letWord ∨ t.kind = .keyword .fnWord) := by
  cases h with
  | letStmt h =>
    cases h with
    | letStmt ht _ _ _ => exact ⟨_, _, rfl, .inl ht⟩
  | fnStmt ht _ _ _ _ _ => exact ⟨_, _, rfl, .inr ht⟩

/-- Reading the tokens of a statement outside of functions gives the statement. -/
theorem reads_item {s : Stmt} {t : Token} {ts rest : List Token} (h : s.RendersItem (t :: ts))
    {d : Nat} {c : Cursor} (hrest : Ends 0 rest) (hahead : c.ahead = t :: (ts ++ rest))
    (hdepth : 4 * ts.length ≤ d) :
    t.kind = .keyword .letWord ∧
        Reads Stmt.unspanned (letDecl d c) (s.numbered c.nextId) (c.nextId + s.uses) rest ∨
      t.kind = .keyword .fnWord ∧
        Reads Stmt.unspanned (functionDef d c) (s.numbered c.nextId) (c.nextId + s.uses) rest := by
  cases h with
  | letStmt h =>
    cases h with
    | letStmt ht hx heq hvalue =>
      simp only [List.length_cons] at hdepth
      rw [Stmt.numbered, Stmt.uses]
      exact .inl ⟨ht, reads_letDecl hahead ht hx heq hvalue hrest (by omega)⟩
  | fnStmt ht hf hopening hparams hclosing hbody =>
    simp only [List.length_cons, List.length_append] at hdepth
    simp only [List.cons_append, List.append_assoc] at hahead
    rw [Stmt.numbered, Stmt.uses]
    exact .inr ⟨ht, reads_functionDef hahead ht hf hopening hparams hclosing hbody (by omega)
      (by omega)⟩

/-- An item is followed by the other items of the module. -/
theorem reads_next_item {d : Nat} {c : Cursor} {t : Token} {ts rest rest' : List Token} {s : Stmt}
    {ss : List Stmt} {n n' : Nat} (hahead : c.skipSeparators.ahead = t :: ts)
    (hs : t.kind = .keyword .letWord ∧
        Reads Stmt.unspanned (letDecl d c.skipSeparators) s n rest ∨
      t.kind = .keyword .fnWord ∧
        Reads Stmt.unspanned (functionDef d c.skipSeparators) s n rest)
    (hss : ∀ c' : Cursor, c'.nextId = n → c'.ahead = rest →
      Reads Stmt.unspannedAll (items d c') ss n' rest') :
    Reads Stmt.unspannedAll (items (d + 1) c) (s :: ss) n' rest' := by
  have hend : c.skipSeparators.atEnd = false := by
    rw [Cursor.atEnd, hahead]
    rfl
  rcases hs with ⟨ht, s', c', hread, rfl, hnext, hrest⟩ | ⟨ht, s', c', hread, rfl, hnext, hrest⟩
  all_goals
    obtain ⟨ss', c'', hread', rfl, hnext', hrest'⟩ := hss c' hnext hrest
    refine ⟨s' :: ss', c'', ?_, by rw [Stmt.unspannedAll], hnext', hrest'⟩
    simp [items, hend, Cursor.atWord_of_ahead hahead, ht, hread, hread', bind, Except.bind, pure,
      Except.pure]

/-- Reading the tokens of the statements of a module, perhaps behind some line ends, gives these
statements. -/
theorem reads_items {ss : List Stmt} {ts : List Token} (h : Stmt.RendersItems ss ts) :
    ∀ {d : Nat} {c : Cursor} {gap : List Token}, (∀ x ∈ gap, x.kind = .newline) →
      c.ahead = gap ++ ts → 4 * ts.length < d →
      Reads Stmt.unspannedAll (items d c) (Stmt.numberedAll ss c.nextId)
        (c.nextId + Stmt.usesIn ss) [] := by
  induction h with
  | nil =>
    intro d c gap hgap hahead hdepth
    obtain ⟨d, rfl⟩ : ∃ d', d = d' + 1 := ⟨d - 1, by omega⟩
    have hahead' : c.skipSeparators.ahead = [] := by
      show c.ahead.dropWhile _ = []
      rw [hahead, List.dropWhile_append_of_pos, List.dropWhile_nil]
      intro x hx
      rw [hgap x hx]
      rfl
    have hend : c.skipSeparators.atEnd = true := by
      rw [Cursor.atEnd, hahead']
      rfl
    rw [Stmt.numberedAll, Stmt.usesIn]
    exact ⟨[], c.skipSeparators, by simp [items, hend], by rw [Stmt.unspannedAll], rfl, hahead'⟩
  | @cons s ss newline ts us h hnewline hrest ih =>
    intro d c gap hgap hahead hdepth
    obtain ⟨d, rfl⟩ : ∃ d', d = d' + 1 := ⟨d - 1, by omega⟩
    simp only [List.length_cons, List.length_append] at hdepth
    obtain ⟨t, ts, rfl, ht⟩ := exists_first_of_item h
    have hahead' : c.skipSeparators.ahead = t :: (ts ++ newline :: us) := by
      refine ahead_skipWhile (fun x hx => ?_) ?_ hahead
      · rw [hgap x hx]
        rfl
      · rw [Token.isOperator]
        rcases ht with ht | ht <;> rw [ht] <;> rfl
    rw [List.length_cons] at hdepth
    -- The newline behind the item ends it, and is a gap for the items that follow.
    have hends := ends_of_newline hnewline us
    have hitem := reads_item h hends hahead' (show 4 * ts.length ≤ d by omega)
    rw [Stmt.numberedAll, Stmt.usesIn, ← Nat.add_assoc]
    refine reads_next_item hahead' hitem ?_
    intro c' hnext hahead''
    have hread := ih (List.forall_mem_singleton.mpr hnewline) hahead''
      (show 4 * us.length < d by omega)
    rwa [hnext] at hread

/-- All tokens of a module are ahead at its beginning. -/
theorem ahead_ofTokens {ts finish : List Token} (hts : ts.all Token.isPlain = true)
    (hfinish : finish = [] ∨ ∃ t, finish = [t] ∧ t.kind = .endOfInput) :
    (Cursor.ofTokens (ts ++ finish)).ahead = ts := by
  have hplain : ∀ t ∈ ts, (t.kind != .comment) = true ∧ (t.kind != .endOfInput) = true := by
    intro t ht
    have hplain := List.all_eq_true.mp hts t ht
    rwa [Token.isPlain, Bool.and_eq_true] at hplain
  have hfilter : (ts ++ finish).filter (fun t => t.kind != .comment) = ts ++ finish := by
    rw [List.filter_eq_self]
    intro t ht
    rcases List.mem_append.mp ht with ht | ht
    · exact (hplain t ht).1
    · rcases hfinish with rfl | ⟨u, rfl, hu⟩
      · cases ht
      · rw [List.mem_singleton.mp ht, hu]
        rfl
  show ((ts ++ finish).filter (fun t => t.kind != .comment)).takeWhile
    (fun t => t.kind != .endOfInput) = ts
  rw [hfilter, List.takeWhile_append_of_pos fun t ht => (hplain t ht).2]
  rcases hfinish with rfl | ⟨u, rfl, hu⟩
  · exact List.append_nil ts
  · rw [List.takeWhile_cons_of_neg (by rw [hu]; decide), List.append_nil]

end Parse

/-- Every module of the surface language can be written down, and reading what was written gives
the same module up to spans, with its uses of names numbered in the order in which they stand. -/
theorem Module.parse_rendered (m : Module) :
    (m.IsSurface → ∃ tokens, m.Renders tokens) ∧
      ∀ tokens, m.Renders tokens →
        ∃ m', Module.parse tokens = .ok m' ∧ m'.unspanned = m.numbered := by
  refine ⟨Module.exists_renders, ?_⟩
  rintro _ ⟨ts, finish, rfl, hitems, hfinish⟩
  have hahead := Parse.ahead_ofTokens hitems.all_isPlain hfinish
  have hdepth : 4 * ts.length < Parse.depthFor (Cursor.ofTokens (ts ++ finish)) := by
    rw [Parse.depthFor, hahead]
    omega
  obtain ⟨body, c, hread, hbody, hnext, -⟩ :=
    Parse.reads_items hitems (List.forall_mem_nil _) hahead hdepth
  refine ⟨⟨body, c.nextId⟩, ?_, ?_⟩
  · rw [Module.parse, hread]
    rfl
  · have hstart : (Cursor.ofTokens (ts ++ finish)).nextId = 0 := rfl
    rw [hstart] at hbody hnext
    rw [Module.unspanned, Module.numbered, hbody, hnext, Nat.zero_add]

/-- A constant, and a function that calls itself behind `else if`, with a sum as a factor. -/
def Module.folding : Module where
  body := [
    .letStmt .zero "k" (some (.literal .zero (.int 7))),
    .fnStmt .zero "f" ["x"] [
      .ifElseStmt .zero (.name .zero 0 "x") [.returnStmt .zero none] [
        .ifStmt .zero (.name .zero 0 "k") [
          .exprStmt .zero (.call .zero 0 "f" [
            .binary .zero .mul (.binary .zero .add (.name .zero 0 "x") (.name .zero 0 "k"))
              (.name .zero 0 "x")])]]]]
  nodeCount := 0

/-- The tokens of `Module.folding`. -/
def Module.foldingTokens : List Token :=
  [.ofKeyword .letWord, .ofName "k", .ofMark .eq, ⟨.number, "7", .zero⟩, .lineEnd,
    .ofKeyword .fnWord, .ofName "f", .ofMark .lParen, .ofName "x", .ofMark .rParen, .ofMark .lBrace,
    .ofKeyword .ifWord, .ofName "x", .ofMark .lBrace, .ofKeyword .returnWord, .lineEnd,
    .ofMark .rBrace, .ofKeyword .elseWord, .ofKeyword .ifWord, .ofName "k", .ofMark .lBrace,
    .ofName "f", .ofMark .lParen, .ofMark .lParen, .ofName "x", .ofMark .plus, .ofName "k",
    .ofMark .rParen, .ofMark .star, .ofName "x", .ofMark .rParen, .lineEnd,
    .ofMark .rBrace, .lineEnd, .ofMark .rBrace, .lineEnd]

/-- `Module.folding` is written as `Module.foldingTokens`, and read back. -/
theorem Module.folding_parsed :
    folding.IsSurface ∧ folding.Renders foldingTokens ∧
      ∃ m', Module.parse foldingTokens = .ok m' ∧ m'.unspanned = folding.numbered := by
  have hseven : Literal.ofNumber? "7" = some (.int 7) := by decide +kernel
  have hsurface : folding.IsSurface := by
    intro s hs
    rcases List.mem_cons.mp hs with rfl | hs
    · exact ⟨"7", hseven⟩
    · rw [List.mem_singleton.mp hs]
      simp [Stmt.IsSurfaceItem, Stmt.AllSurface, Stmt.IsSurface, Expr.IsSurface, Expr.AllSurface,
        Expr.leading?, BinaryOp.mark?, breakName, continueName]
  have hgap : ∀ n ∈ ([] : List Token), n.kind = .newline := List.forall_mem_nil _
  have hname (x : String) (p : Nat) : (Expr.name .zero 0 x).Renders p [.ofName x] :=
    .name (t := .ofName x) rfl
  -- parentheses stand around the sum, and nowhere else
  have hsum : (Expr.binary .zero .add (.name .zero 0 "x") (.name .zero 0 "k")).Renders 20
      (.ofMark .lParen :: ([.ofName "x"] ++ .ofMark .plus :: [.ofName "k"] ++ [.ofMark .rParen])) :=
    .parentheses (by decide) rfl (.binary (by decide) rfl (hname "x" _) rfl (hname "k" _)) rfl
  have hproduct : (Expr.binary .zero .mul _ _).Renders 0 (_ ++ .ofMark .star :: _) :=
    .binary (by decide) rfl hsum rfl (hname "x" _)
  have hcall : (Expr.call .zero 0 "f" [_]).Renders 0
      (_ :: .ofMark .lParen :: (_ ++ [.ofMark .rParen])) :=
    .call (t := .ofName "f") rfl rfl (.one hproduct) rfl
  have hsecond : (Stmt.ifStmt .zero (.name .zero 0 "k") [.exprStmt .zero _]).Renders
      (.ofKeyword .ifWord :: ([.ofName "k"] ++
        (.ofMark .lBrace :: ([] ++ (_ ++ .lineEnd :: [] ++ [.ofMark .rBrace]))))) :=
    .ifStmt rfl (hname "k" 0) (.block rfl hgap
      (.cons (.exprStmt hcall (by rintro _ ⟨⟩; decide)) rfl .nil) rfl)
  have hfirst : Stmt.RendersBlock [.returnStmt .zero none]
      (.ofMark .lBrace :: ([] ++ ([.ofKeyword .returnWord] ++ .lineEnd :: [] ++
        [.ofMark .rBrace]))) :=
    .block rfl hgap (.cons (.returnNone rfl) rfl .nil) rfl
  have hif : (Stmt.ifElseStmt .zero (.name .zero 0 "x") _ [_]).Renders
      (.ofKeyword .ifWord :: ([.ofName "x"] ++ (_ ++ ([] ++ .ofKeyword .elseWord :: _)))) :=
    .elseIfStmt rfl (hname "x" 0) hfirst hgap rfl rfl hsecond
  have hlet : Stmt.RendersItem (.letStmt .zero "k" (some (.literal .zero (.int 7))))
      [.ofKeyword .letWord, .ofName "k", .ofMark .eq, ⟨.number, "7", .zero⟩] :=
    .letStmt (.letStmt (x := .ofName "k") rfl rfl rfl (.number rfl hseven))
  have hfn : Stmt.RendersItem (.fnStmt .zero "f" ["x"] _)
      (.ofKeyword .fnWord :: .ofName "f" :: .ofMark .lParen :: ([.ofName "x"] ++ .ofMark .rParen ::
        (.ofMark .lBrace :: ([] ++ (_ ++ .lineEnd :: [] ++ [.ofMark .rBrace]))))) :=
    .fnStmt (f := .ofName "f") rfl rfl rfl (.one (x := .ofName "x") rfl) rfl
      (.block rfl hgap (.cons hif rfl .nil) rfl)
  have hrenders : folding.Renders foldingTokens := by
    refine ⟨foldingTokens, [], (List.append_nil _).symm, ?_, .inl rfl⟩
    have hitems : Stmt.RendersItems [_, _] (_ ++ .lineEnd :: (_ ++ .lineEnd :: [])) :=
      .cons hlet rfl (.cons hfn rfl .nil)
    exact hitems
  exact ⟨hsurface, hrenders, (Module.parse_rendered folding).2 foldingTokens hrenders⟩

end Scriptlet
