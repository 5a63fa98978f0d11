import Scriptlet.Proofs.Derivations
import Scriptlet.Proofs.ReadersAgree

/-!
# No index goes astray

Wherever a reader stands, a cursor stands at the same token, and what the one reads the other reads,
too.  So the reader never looks or moves outside of its tokens, every turn of its loops moves or is
the last, and its calls are nested no more deeply than three times the number of the tokens.  It
comes to the module or the fault of `Module.parse`, and never to a breach (`Module.parse_indexed`).
-/

namespace Scriptlet

namespace TokenReader

variable {tokens : Array Token} {front : List Token} {finish : Span}

/-! ## Lists -/

/-- What is read, with what has been read before it put in front. -/
def joined {α : Type} (front : List α) (result : Except SyntaxFault (List α × Cursor)) :
    Except SyntaxFault (List α × Cursor) :=
  result.map fun p => (front ++ p.1, p.2)

theorem joined_nil {α : Type} (result : Except SyntaxFault (List α × Cursor)) :
    joined [] result = result := by
  cases result <;> rfl

/-- Putting items in front can wait until the next step is done. -/
theorem joined_bind {α β : Type} (front : List α) (result : Except SyntaxFault β)
    (f : β → Except SyntaxFault (List α × Cursor)) :
    joined front (result >>= f) = result >>= fun b => joined front (f b) := by
  cases result <;> rfl

/-- An item put in front of the rest is put behind those before it. -/
theorem joined_cons {α : Type} (front : List α) (a : α)
    (result : Except SyntaxFault (List α × Cursor)) :
    joined front (result >>= fun p => pure (a :: p.1, p.2)) = joined (front ++ [a]) result := by
  cases result with
  | error f => rfl
  | ok p =>
    show Except.ok (front ++ a :: p.1, p.2) = .ok (front ++ [a] ++ p.1, p.2)
    rw [List.append_assoc]
    rfl

/-- A function reads the items of a list up to the closing parenthesis, each with one level of depth
less than the one before. -/
def ReadsList {α : Type} (items : Nat → Cursor → Except SyntaxFault (List α × Cursor))
    (item : Nat → Cursor → Except SyntaxFault (α × Cursor)) : Prop :=
  ∀ D c, items (D + 1) c =
    if c.atMark .rParen then .ok ([], c)
    else item D c >>= fun p =>
      if p.2.skipNewlines.atMark .comma then
        items D p.2.skipNewlines.advance.skipNewlines >>= fun q => pure (p.1 :: q.1, q.2)
      else pure ([p.1], p.2.skipNewlines)

/-- Arguments are read as a list of expressions. -/
theorem readsList_arguments : ReadsList Parse.arguments fun D => Parse.binary D 0 := by
  intro D c
  rw [Parse.arguments]

/-- A parameter of a function, read at a cursor. -/
def parameterAt (c : Cursor) : Except SyntaxFault (String × Cursor) := do
  let (t, c) ← c.expectName .parameterName
  return (t.text, c)

/-- Parameters are read as a list of names. -/
theorem readsList_parameters : ReadsList Parse.parameters fun _ => parameterAt := by
  intro D c
  simp only [Parse.parameters, parameterAt, bind_assoc]
  rfl

section Lists

variable {α : Type} {items : Nat → Cursor → Except SyntaxFault (List α × Cursor)}
  {item : Nat → Cursor → Except SyntaxFault (α × Cursor)}
  {readItem : TokenReader → Except Stop (α × TokenReader)} {n : Nat}

/-- If both read the items of a list alike, both read the rest of the list alike. -/
theorem listItems_agree (hreads : ReadsList items item) {D : Nat}
    (hitem : ∀ D' < D, ∀ {r : TokenReader} {c : Cursor}, Shows tokens front finish r c →
      c.ahead.length ≤ n → 8 * c.ahead.length + 2 ≤ D' →
      Agrees tokens front finish (r.pos + 1) (readItem r) (item D' c)) :
    ∀ {k : Nat} {before : List α} {r : TokenReader} {c : Cursor},
      Shows tokens front finish r c → c.skipNewlines = c → c.atMark .rParen = false →
      c.ahead.length ≤ n → 8 * c.ahead.length + 3 ≤ D → c.ahead.length < k →
      Agrees tokens front finish r.pos (turns (listTurn readItem) k before r)
        (joined before (items D c)) := by
  induction D with
  | zero =>
    intro k before r c _ _ _ _ hD
    exact absurd hD (Nat.not_succ_le_zero _)
  | succ D ih =>
    intro k before r c h hskip hparen hn hD hk
    obtain ⟨k, rfl⟩ := Nat.exists_eq_add_one_of_ne_zero (Nat.ne_zero_of_lt hk)
    have hlength := h.length_add
    obtain ⟨r₁, hnewlines, h₁, hpos₁⟩ := h.skipNewlines
    rw [hskip] at h₁
    have hlength₁ := h₁.length_add
    rw [turns, listTurn, hnewlines, hreads, hparen, if_neg Bool.false_ne_true, joined_bind]
    simp only [ok_bind, bind_assoc]
    apply (hitem D (Nat.lt_succ_self D) h₁ hn (by omega)).bind
    intro x r₂ c₂ h₂ hpos₂
    have hlength₂ := h₂.length_add
    obtain ⟨r₃, hnewlines₃, h₃, hpos₃⟩ := h₂.skipNewlines
    simp only [hnewlines₃, ok_bind, h₃.atMark]
    by_cases hcomma : c₂.skipNewlines.atMark .comma = true
    · have hne : c₂.skipNewlines.ahead ≠ [] := ne_nil_of_atMark hcomma
      obtain ⟨r₄, hadvance, h₄, hpos₄⟩ := h₃.advance hne
      obtain ⟨r₅, hnewlines₅, h₅, hpos₅⟩ := h₄.skipNewlines
      have hlength₅ := h₅.length_add
      simp only [hcomma, if_true, hadvance, ok_bind, hnewlines₅, h₅.atMark, joined_cons]
      cases hlast : c₂.skipNewlines.advance.skipNewlines.atMark .rParen with
      | true =>
        -- A comma stands behind the last item.
        obtain ⟨D, rfl⟩ := Nat.exists_eq_add_one_of_ne_zero (show D ≠ 0 by omega)
        rw [hreads, hlast, if_pos rfl]
        show Agrees _ _ _ _ (.ok (before ++ [x], r₅)) (.ok (before ++ [x] ++ [], _))
        rw [List.append_nil]
        exact .ok h₅ (by omega)
      | false =>
        show Agrees _ _ _ _ (if r.pos < r₅.pos then _ else _) _
        rw [if_pos (by omega)]
        exact (ih (fun D' hD' => hitem D' (Nat.lt_succ_of_lt hD')) h₅
          (Cursor.skipWhile_skipWhile ..) hlast (by omega) (by omega) (by omega)).mono (by omega)
    · simp only [hcomma]
      exact .ok h₃ (by omega)

/-- If both read the items of a list alike, both read the list alike. -/
theorem list_agrees (hreads : ReadsList items item) {D : Nat}
    (hitem : ∀ D' < D, ∀ {r : TokenReader} {c : Cursor}, Shows tokens front finish r c →
      c.ahead.length ≤ n → 8 * c.ahead.length + 2 ≤ D' →
      Agrees tokens front finish (r.pos + 1) (readItem r) (item D' c))
    {r : TokenReader} {c : Cursor} (h : Shows tokens front finish r c) (hn : c.ahead.length ≤ n)
    (hD : 8 * c.ahead.length + 3 ≤ D) :
    Agrees tokens front finish r.pos (r.list readItem) (items D c.skipNewlines) := by
  have hlength := h.length_add
  obtain ⟨r', hnewlines, h', hpos⟩ := h.skipNewlines
  have hlength' := h'.length_add
  rw [list, hnewlines]
  simp only [ok_bind, h'.atMark]
  cases hparen : c.skipNewlines.atMark .rParen with
  | true =>
    obtain ⟨D, rfl⟩ := Nat.exists_eq_add_one_of_ne_zero (show D ≠ 0 by omega)
    rw [hreads, hparen, if_pos rfl]
    exact .ok h' hpos
  | false =>
    rw [← joined_nil (items D _)]
    exact (listItems_agree hreads hitem h' (Cursor.skipWhile_skipWhile ..) hparen (by omega)
      (by omega) h'.length_lt).mono hpos

end Lists

/-! ## Expressions -/

/-- With enough depth for what is ahead, both come to the same expression. -/
def BinaryAgrees (tokens : Array Token) (front : List Token) (finish : Span) (D : Nat) : Prop :=
  ∀ {d minPrec : Nat} {r : TokenReader} {c : Cursor}, Shows tokens front finish r c →
    8 * c.ahead.length + 2 ≤ D → 2 * c.ahead.length + 2 ≤ d →
    Agrees tokens front finish (r.pos + 1) (binary d minPrec r) (Parse.binary D minPrec c)

/-- There is a token ahead where an operator is. -/
theorem ne_nil_of_operatorAhead {c : Cursor} {minPrec : Nat} {found : BinaryOp × Nat}
    (h : Parse.operatorAhead? minPrec c = some found) : c.ahead ≠ [] := by
  intro hnil
  rw [Parse.operatorAhead?, Cursor.peek, hnil] at h
  cases h

/-- The operators behind an operand. -/
theorem operators_agree {D : Nat} (hbinary : ∀ D' < D, BinaryAgrees tokens front finish D') :
    ∀ {d k minPrec : Nat} {left : Expr} {r : TokenReader} {c : Cursor},
      Shows tokens front finish r c → 8 * c.ahead.length + 1 ≤ D → 2 * c.ahead.length ≤ d →
      c.ahead.length < k →
      Agrees tokens front finish r.pos (turns (operatorTurn (binary d) minPrec) k left r)
        (Parse.operators D minPrec left c) := by
  induction D with
  | zero =>
    intro d k minPrec left r c _ hD
    exact absurd hD (Nat.not_succ_le_zero _)
  | succ D ih =>
    intro d k minPrec left r c h hD hd hk
    obtain ⟨k, rfl⟩ := Nat.exists_eq_add_one_of_ne_zero (Nat.ne_zero_of_lt hk)
    obtain ⟨t, hpeek, hoperator⟩ := h.operator minPrec
    rw [turns, operatorTurn, Parse.operators, hpeek]
    simp only [ok_bind, hoperator]
    cases hahead : Parse.operatorAhead? minPrec c with
    | none => exact .ok h (Nat.le_refl _)
    | some found =>
      have hne := ne_nil_of_operatorAhead hahead
      obtain ⟨next, hadvance, hnext, hmoved⟩ := h.advance hne
      have hlength := h.length_add
      have hlength' := hnext.length_add
      simp only [hadvance, ok_bind, bind_assoc]
      apply (hbinary D (Nat.lt_succ_self D) hnext (by omega) (by omega)).bind
      intro right r' c' h' hpos
      have hlength'' := h'.length_add
      -- An operator and an operand were read, so the turn has moved.
      have hlt : r.pos < r'.pos := by omega
      show Agrees _ _ _ _ (if r.pos < r'.pos then _ else _) _
      rw [if_pos hlt]
      exact (ih (fun D' hD' => hbinary D' (Nat.lt_succ_of_lt hD')) h' (by omega) (by omega)
        (by omega)).mono (Nat.le_of_lt hlt)

/-- A call whose name has been read. -/
theorem call_agrees {D : Nat} (hbinary : ∀ D' < D, BinaryAgrees tokens front finish D') {d : Nat}
    {t : Token} {r : TokenReader} {c : Cursor} (h : Shows tokens front finish r c)
    (hparen : c.atMark .lParen = true) (hD : 8 * c.ahead.length ≤ D)
    (hd : 2 * c.ahead.length + 1 ≤ d) :
    Agrees tokens front finish (r.pos + 1) (call d t r)
      (do
        let (args, c') ← Parse.arguments D c.takeId.advance.skipNewlines
        let (_, c') ← c'.expectMark .rParen
        return (.call (c'.spanSince t.span) c.nextId t.text args, c')) := by
  obtain ⟨d, rfl⟩ := Nat.exists_eq_add_one_of_ne_zero (show d ≠ 0 by omega)
  have hlength := h.length_add
  obtain ⟨_, r₁, hexpect, h₁, hpos₁⟩ := h.takeId.expectMark_of_atMark hparen
  have hlength₁ := h₁.length_add
  have hstart : r.takeId.pos = r.pos := rfl
  rw [call, hexpect]
  simp only [ok_bind, h.nextId_eq]
  have hargs : Agrees tokens front finish r₁.pos (r₁.list (binary d 0))
      (Parse.arguments D c.takeId.advance.skipNewlines) := by
    apply list_agrees readsList_arguments _ h₁ (Nat.le_refl _) (by omega)
    intro D' hD' r c h hn hD
    exact hbinary D' hD' h hD (by omega)
  apply hargs.bind
  intro args r₂ c₂ h₂ hpos₂
  apply (h₂.expectMark .rParen).bind
  intro _ r₃ c₃ h₃ hpos₃
  simp only [h₃.spanSince (show 0 < r₃.pos by omega), ok_bind]
  exact .ok h₃ (by omega)

/-- An expression in parentheses. -/
theorem group_agrees {D : Nat} (hbinary : BinaryAgrees tokens front finish D) {d : Nat}
    {start : Span} {r : TokenReader} {c : Cursor} (h : Shows tokens front finish r c)
    (hD : 8 * c.ahead.length + 2 ≤ D) (hd : 2 * c.ahead.length + 2 ≤ d) :
    Agrees tokens front finish r.pos
      (do
        let (inner, r) ← binary d 0 (← r.skipNewlines)
        let (_, r) ← (← r.skipNewlines).expectMark .rParen
        return (inner.withSpan (← r.spanSince start), r))
      (do
        let (inner, c) ← Parse.binary D 0 c.skipNewlines
        let (_, c) ← c.skipNewlines.expectMark .rParen
        return (inner.withSpan (c.spanSince start), c)) := by
  have hlength := h.length_add
  obtain ⟨r₁, hnewlines₁, h₁, hpos₁⟩ := h.skipNewlines
  have hlength₁ := h₁.length_add
  rw [hnewlines₁, ok_bind]
  apply (hbinary h₁ (by omega) (by omega)).bind
  intro inner r₂ c₂ h₂ hpos₂
  obtain ⟨r₃, hnewlines₃, h₃, hpos₃⟩ := h₂.skipNewlines
  simp only [hnewlines₃, ok_bind]
  apply (h₃.expectMark .rParen).bind
  intro _ r₄ c₄ h₄ hpos₄
  simp only [h₄.spanSince (show 0 < r₄.pos by omega), ok_bind]
  exact .ok h₄ (by omega)

/-- Whether an operand can begin with a token of some kind. -/
def beginsOperand : TokenKind → Bool
  | .number | .string | .identifier => true
  | .keyword word => word == .trueWord || word == .falseWord
  | .operator mark => mark == .lParen
  | _ => false

/-- The reader refuses a token that begins no operand. -/
theorem primary_of_not_begins {d : Nat} {r : TokenReader} {t : Token} (hpeek : r.peek = .ok t)
    (hkind : beginsOperand t.kind = false) :
    primary (d + 1) r = .error (.fault (SyntaxFault.expected .expression t).diagnostic) := by
  rw [primary, hpeek, ok_bind]
  split <;> simp_all [beginsOperand]

/-- At a cursor the same token is refused with the same fault. -/
theorem primaryAt_of_not_begins {D : Nat} {c : Cursor} (hkind : beginsOperand c.peek.kind = false) :
    Parse.primary (D + 1) c = .error (.expected .expression c.peek) := by
  rw [Parse.primary]
  dsimp only
  split <;> simp_all [beginsOperand]

/-- An operand. -/
theorem primary_agrees {D : Nat} (hbinary : ∀ D' < D, BinaryAgrees tokens front finish D')
    {d : Nat} {r : TokenReader} {c : Cursor} (h : Shows tokens front finish r c)
    (hD : 8 * c.ahead.length + 1 ≤ D) (hd : 2 * c.ahead.length + 1 ≤ d) :
    Agrees tokens front finish (r.pos + 1) (primary d r) (Parse.primary D c) := by
  obtain ⟨D, rfl⟩ := Nat.exists_eq_add_one_of_ne_zero (show D ≠ 0 by omega)
  obtain ⟨d, rfl⟩ := Nat.exists_eq_add_one_of_ne_zero (show d ≠ 0 by omega)
  have hbelow : ∀ D' < D, BinaryAgrees tokens front finish D' :=
    fun D' hD' => hbinary D' (Nat.lt_succ_of_lt hD')
  have hlength := h.length_add
  have hend : ∀ t : Token, t.kind = .endOfInput → beginsOperand t.kind = false := by
    intro t ht
    rw [ht]
    rfl
  cases hbegins : beginsOperand c.peek.kind with
  | false =>
    obtain ⟨t, hpeek, ht⟩ := h.peek
    -- The reader sees the same token or the end of the input, which begins no operand either.
    have hother : beginsOperand t.kind = false := by
      obtain ⟨-, rfl⟩ | ⟨-, hkind, -⟩ := ht
      · exact hbegins
      · exact hend t hkind
    rw [primary_of_not_begins hpeek hother, primaryAt_of_not_begins hbegins]
    exact h.missed hpeek .expression
  | true =>
    -- From here on there is a token, which both pass.
    have hne : c.ahead ≠ [] := ne_nil_of_peek hend hbegins
    obtain ⟨r', hadvance, h', hpos⟩ := h.advance hne
    have hlength' := h'.length_add
    have hread : r.pos + 1 ≤ r'.pos := Nat.le_of_eq hpos.symm
    rw [primary, Parse.primary, h.peek_of_ne_nil hne, ok_bind, hadvance]
    cases hkind : c.peek.kind with
    | number =>
      dsimp only [ok_bind]
      cases Literal.ofNumber? c.peek.text with
      | none => exact .fault (fun h => by cases h) h.exists_peek
      | some value => exact .ok h' hread
    | string => exact .ok h' hread
    | identifier =>
      dsimp only [ok_bind]
      rw [h'.atMark, ok_bind]
      cases hparen : c.advance.atMark .lParen with
      | true => exact (call_agrees hbelow h' hparen (by omega) (by omega)).mono (by omega)
      | false => exact h'.nextId_eq ▸ .ok h'.takeId hread
    | keyword word =>
      rw [hkind] at hbegins
      cases word with
      | trueWord => exact .ok h' hread
      | falseWord => exact .ok h' hread
      | _ => cases hbegins
    | operator mark =>
      rw [hkind] at hbegins
      obtain rfl : mark = .lParen := beq_iff_eq.mp hbegins
      exact (group_agrees (hbinary D (Nat.lt_succ_self D)) h' (by omega) (by omega)).mono hread
    | _ =>
      rw [hkind] at hbegins
      cases hbegins

/-- With enough depth for what is ahead, both come to the same expression. -/
theorem binary_agrees (D : Nat) : BinaryAgrees tokens front finish D := by
  induction D using Nat.strongRecOn with
  | ind D ih =>
    intro d minPrec r c h hD hd
    obtain ⟨D, rfl⟩ := Nat.exists_eq_add_one_of_ne_zero (show D ≠ 0 by omega)
    obtain ⟨d, rfl⟩ := Nat.exists_eq_add_one_of_ne_zero (show d ≠ 0 by omega)
    have hbelow : ∀ D' < D, BinaryAgrees tokens front finish D' :=
      fun D' hD' => ih D' (Nat.lt_succ_of_lt hD')
    have hlength := h.length_add
    rw [binary, Parse.binary]
    apply (primary_agrees hbelow h (by omega) (by omega)).bind
    intro left r' c' h' hpos
    -- The operand has taken a token, so the depth that is left is enough for the operators.
    have hlength' := h'.length_add
    exact (operators_agree hbelow h' (by omega) (by omega) h'.length_lt).mono hpos

/-! ## Statements -/

/-- A declaration of a variable. -/
theorem letDecl_agrees {D d : Nat} {r : TokenReader} {c : Cursor}
    (h : Shows tokens front finish r c) (hD : 8 * c.ahead.length ≤ D)
    (hd : 2 * c.ahead.length ≤ d) :
    Agrees tokens front finish (r.pos + 1) (letDecl d r) (Parse.letDecl D c) := by
  have hlength := h.length_add
  rw [letDecl, Parse.letDecl]
  apply (h.expectWord .letWord).bind
  intro start r₁ c₁ h₁ hpos₁
  apply (h₁.expectName .variableName).bind
  intro name r₂ c₂ h₂ hpos₂
  apply (h₂.expectMark .eq).bind
  intro _ r₃ c₃ h₃ hpos₃
  have hlength₃ := h₃.length_add
  apply (binary_agrees D h₃ (by omega) (by omega)).bind
  intro value r₄ c₄ h₄ hpos₄
  simp only [h₄.spanSince (show 0 < r₄.pos by omega), ok_bind]
  exact .ok h₄ (by omega)

/-- With enough depth for what is ahead, both come to the same statement. -/
def StatementAgrees (tokens : Array Token) (front : List Token) (finish : Span) (D : Nat) : Prop :=
  ∀ {d : Nat} {r : TokenReader} {c : Cursor}, Shows tokens front finish r c →
    8 * c.ahead.length + 3 ≤ D → 3 * c.ahead.length + 3 ≤ d →
    Agrees tokens front finish (r.pos + 1) (statement d r) (Parse.statement D c)

/-- The statements of a block end before the closing brace. -/
theorem atMark_of_statements {D : Nat} {opened : Span} :
    ∀ {c c' : Cursor} {body : Block}, Parse.statements D opened c = .ok (body, c') →
      c'.atMark .rBrace = true := by
  induction D with
  | zero => nofun
  | succ D ih =>
    intro c c' body hread
    rw [Parse.statements] at hread
    by_cases hbrace : c.atMark .rBrace = true
    · rw [if_pos hbrace] at hread
      cases hread
      exact hbrace
    · rw [if_neg hbrace] at hread
      by_cases hend : c.atEnd = true
      · rw [if_pos hend] at hread
        cases hread
      · rw [if_neg hend] at hread
        obtain ⟨⟨first, c₁⟩, -, hread⟩ := Parse.exists_of_bind hread
        obtain ⟨⟨rest, c₂⟩, hrest, hread⟩ := Parse.exists_of_bind hread
        cases hread
        exact ih hrest

/-- So to pass the brace is to expect it. -/
theorem statements_bind_advance (D : Nat) (opened : Span) (c : Cursor) :
    (Parse.statements D opened c >>= fun p => pure (p.1, p.2.advance)) =
      Parse.statements D opened c >>= fun p =>
        p.2.expectMark .rBrace >>= fun q => pure (p.1, q.2) := by
  cases hread : Parse.statements D opened c with
  | error f => rfl
  | ok p =>
    have hexpect : p.2.expectMark .rBrace = .ok (p.2.peek, p.2.advance) :=
      if_pos (atMark_of_statements hread)
    simp only [ok_bind, hexpect]

/-- The statements up to the end of a block. -/
theorem statements_agree {D : Nat} (hstatement : ∀ D' < D, StatementAgrees tokens front finish D')
    {opened : Span} :
    ∀ {d k : Nat} {before : Block} {r : TokenReader} {c : Cursor}, Shows tokens front finish r c →
      8 * c.ahead.length + 4 ≤ D → 3 * c.ahead.length + 3 ≤ d → c.ahead.length < k →
      Agrees tokens front finish r.pos (turns (blockTurn (statement d) opened) k before r)
        (joined before (Parse.statements D opened c)) := by
  induction D with
  | zero =>
    intro d k before r c _ hD
    exact absurd hD (Nat.not_succ_le_zero _)
  | succ D ih =>
    intro d k before r c h hD hd hk
    obtain ⟨k, rfl⟩ := Nat.exists_eq_add_one_of_ne_zero (Nat.ne_zero_of_lt hk)
    have hlength := h.length_add
    rw [turns, blockTurn, Parse.statements]
    simp only [h.atMark, h.atEnd, h.peek_span, ok_bind]
    cases c.atMark .rBrace with
    | true =>
      show Agrees _ _ _ _ (.ok (before, r)) (.ok (before ++ [], c))
      rw [List.append_nil]
      exact .ok h (Nat.le_refl _)
    | false =>
      cases c.atEnd with
      -- A block that is never closed is the same fault for both.
      | true => exact .fault (fun h => by cases h) h.exists_peek
      | false =>
        simp only [Bool.false_eq_true, if_false, bind_assoc]
        rw [joined_bind]
        apply (hstatement D (Nat.lt_succ_self D) h (by omega) (by omega)).bind
        intro s r₁ c₁ h₁ hpos₁
        obtain ⟨r₂, hseparators, h₂, hpos₂⟩ := h₁.skipSeparators
        have hlength₂ := h₂.length_add
        simp only [hseparators, ok_bind, joined_cons]
        show Agrees _ _ _ _ (if r.pos < r₂.pos then _ else _) _
        -- A statement was read, so the turn has moved.
        rw [if_pos (by omega)]
        exact (ih (fun D' hD' => hstatement D' (Nat.lt_succ_of_lt hD')) h₂ (by omega) (by omega)
          (by omega)).mono (by omega)

/-- A block. -/
theorem block_agrees {D : Nat} (hstatement : ∀ D' < D, StatementAgrees tokens front finish D')
    {d : Nat} {r : TokenReader} {c : Cursor} (h : Shows tokens front finish r c)
    (hD : 8 * c.ahead.length + 1 ≤ D) (hd : 3 * c.ahead.length + 1 ≤ d) :
    Agrees tokens front finish (r.pos + 1) (block d r) (Parse.block D c) := by
  obtain ⟨D, rfl⟩ := Nat.exists_eq_add_one_of_ne_zero (show D ≠ 0 by omega)
  obtain ⟨d, rfl⟩ := Nat.exists_eq_add_one_of_ne_zero (show d ≠ 0 by omega)
  have hlength := h.length_add
  obtain ⟨r₁, hnewlines, h₁, hpos₁⟩ := h.skipNewlines
  rw [block, Parse.block, hnewlines, ok_bind]
  apply (h₁.expectMark .lBrace).bind
  intro opening r₂ c₂ h₂ hpos₂
  obtain ⟨r₃, hseparators, h₃, hpos₃⟩ := h₂.skipSeparators
  have hlength₃ := h₃.length_add
  simp only [hseparators, ok_bind, statements_bind_advance]
  rw [← joined_nil (Parse.statements ..)]
  apply (statements_agree (fun D' hD' => hstatement D' (Nat.lt_succ_of_lt hD')) h₃ (by omega)
    (by omega) h₃.length_lt).bind
  intro body r₄ c₄ h₄ hpos₄
  apply (h₄.expectMark .rBrace).bind
  intro _ r₅ c₅ h₅ hpos₅
  have hread : r.pos + 1 ≤ r₅.pos := by omega
  exact .ok h₅ hread

/-- Both find the word `else` behind line ends, or neither does. -/
theorem Shows.passElse {r : TokenReader} {c : Cursor} (h : Shows tokens front finish r c) :
    ∃ i t, r.passNewlines r.tokens.size r.pos = .ok i ∧ r.look i = .ok t ∧
      (t.isKeyword .elseWord = false ∧ c.passElse? = none ∨
        t.isKeyword .elseWord = true ∧ ∃ r' c', r.moveTo (i + 1) = .ok r' ∧
          c.passElse? = some c' ∧ Shows tokens front finish r' c' ∧ r.pos < r'.pos) := by
  obtain ⟨i, hpass, hshows, hle⟩ := passes_newlines r r.tokens.size h h.length_lt
  obtain ⟨t, hpeek, -⟩ := hshows.peek
  have hlook : r.look i = .ok t := hpeek
  have hword : t.isKeyword .elseWord = c.skipNewlines.atWord .elseWord := by
    have htest := hshows.atWord .elseWord
    rw [TokenReader.atWord, TokenReader.test, hpeek] at htest
    exact Except.ok.inj htest
  refine ⟨i, t, hpass, hlook, ?_⟩
  rw [hword, Cursor.passElse?]
  cases helse : c.skipNewlines.atWord .elseWord with
  | false => exact .inl ⟨rfl, rfl⟩
  | true =>
    obtain ⟨hmove, hmoved⟩ := hshows.moved (ne_nil_of_atWord helse)
    exact .inr ⟨rfl, _, _, hmove, rfl, hmoved, Nat.lt_succ_of_le hle⟩

/-- A conditional statement. -/
theorem conditional_agrees {D : Nat}
    (hstatement : ∀ D' < D, StatementAgrees tokens front finish D') :
    ∀ {d : Nat} {r : TokenReader} {c : Cursor}, Shows tokens front finish r c →
      8 * c.ahead.length + 1 ≤ D → 3 * c.ahead.length + 2 ≤ d →
      Agrees tokens front finish (r.pos + 1) (conditional d r) (Parse.conditional D c) := by
  induction D with
  | zero =>
    intro d r c _ hD
    exact absurd hD (Nat.not_succ_le_zero _)
  | succ D ih =>
    intro d r c h hD hd
    have hbelow : ∀ D' < D, StatementAgrees tokens front finish D' :=
      fun D' hD' => hstatement D' (Nat.lt_succ_of_lt hD')
    obtain ⟨d, rfl⟩ := Nat.exists_eq_add_one_of_ne_zero (show d ≠ 0 by omega)
    have hlength := h.length_add
    rw [conditional, Parse.conditional]
    apply (h.expectWord .ifWord).bind
    intro start r₁ c₁ h₁ hpos₁
    have hlength₁ := h₁.length_add
    apply (binary_agrees D h₁ (by omega) (by omega)).bind
    intro cond r₂ c₂ h₂ hpos₂
    have hlength₂ := h₂.length_add
    apply (block_agrees hbelow h₂ (by omega) (by omega)).bind
    intro body r₃ c₃ h₃ hpos₃
    -- The reader looks past line ends without moving, and moves only behind the word `else`.
    obtain ⟨i, t, hpass, hlook, ⟨hword, helse⟩ | ⟨hword, r₄, c₄, hmove, helse, h₄, hpos₄⟩⟩ :=
      h₃.passElse
    · simp only [hpass, hlook, ok_bind, hword, helse,
        h₃.spanSince (show 0 < r₃.pos by omega)]
      exact .ok h₃ (by omega)
    · have hlength₄ := h₄.length_add
      simp only [hpass, hlook, ok_bind, hword, if_true, helse, hmove, h₄.atWord]
      cases c₄.atWord .ifWord with
      | true =>
        apply (ih hbelow h₄ (by omega) (by omega)).bind
        intro other r₅ c₅ h₅ hpos₅
        simp only [h₅.spanSince (show 0 < r₅.pos by omega), ok_bind]
        exact .ok h₅ (by omega)
      | false =>
        apply (block_agrees hbelow h₄ (by omega) (by omega)).bind
        intro other r₅ c₅ h₅ hpos₅
        simp only [h₅.spanSince (show 0 < r₅.pos by omega), ok_bind]
        exact .ok h₅ (by omega)

/-- With enough depth for what is ahead, both come to the same statement. -/
theorem statement_agrees (D : Nat) : StatementAgrees tokens front finish D := by
  induction D using Nat.strongRecOn with
  | ind D ih =>
    intro d r c h hD hd
    obtain ⟨D, rfl⟩ := Nat.exists_eq_add_one_of_ne_zero (show D ≠ 0 by omega)
    obtain ⟨d, rfl⟩ := Nat.exists_eq_add_one_of_ne_zero (show d ≠ 0 by omega)
    have hbelow : ∀ D' < D, StatementAgrees tokens front finish D' :=
      fun D' hD' => ih D' (Nat.lt_succ_of_lt hD')
    have hlength := h.length_add
    rw [statement, Parse.statement]
    simp only [h.peek_span, h.atWord, h.atName, ok_bind]
    -- Both look for the same first tokens in the same order.
    by_cases hlet : c.atWord .letWord = true
    · rw [if_pos hlet, if_pos hlet]
      exact letDecl_agrees h (by omega) (by omega)
    rw [if_neg hlet, if_neg hlet]
    by_cases hreturn : c.atWord .returnWord = true
    · obtain ⟨r₁, hadvance, h₁, hpos₁⟩ := h.advance (ne_nil_of_atWord hreturn)
      have hlength₁ := h₁.length_add
      simp only [hreturn, if_true, hadvance, ok_bind, h₁.atStatementEnd]
      cases Parse.atStatementEnd c.advance with
      | true =>
        simp only [if_true, h₁.spanSince (show 0 < r₁.pos by omega), ok_bind]
        exact .ok h₁ (by omega)
      | false =>
        apply (binary_agrees D h₁ (by omega) (by omega)).bind
        intro value r₂ c₂ h₂ hpos₂
        simp only [h₂.spanSince (show 0 < r₂.pos by omega), ok_bind]
        exact .ok h₂ (by omega)
    rw [if_neg hreturn, if_neg hreturn]
    by_cases hif : c.atWord .ifWord = true
    · rw [if_pos hif, if_pos hif]
      exact conditional_agrees hbelow h (by omega) (by omega)
    rw [if_neg hif, if_neg hif]
    by_cases hwhile : c.atWord .whileWord = true
    · obtain ⟨r₁, hadvance, h₁, hpos₁⟩ := h.advance (ne_nil_of_atWord hwhile)
      have hlength₁ := h₁.length_add
      simp only [hwhile, if_true, hadvance, ok_bind]
      apply (binary_agrees D h₁ (by omega) (by omega)).bind
      intro cond r₂ c₂ h₂ hpos₂
      have hlength₂ := h₂.length_add
      apply (block_agrees hbelow h₂ (by omega) (by omega)).bind
      intro body r₃ c₃ h₃ hpos₃
      simp only [h₃.spanSince (show 0 < r₃.pos by omega), ok_bind]
      exact .ok h₃ (by omega)
    rw [if_neg hwhile, if_neg hwhile]
    by_cases hbreak : c.peek.isName breakName = true
    · obtain ⟨r₁, hadvance, h₁, hpos₁⟩ :=
        h.advance (ne_nil_of_peek (fun _ ht => isName_of_end ht _) hbreak)
      simp only [hbreak, if_true, hadvance, ok_bind]
      exact .ok h₁ (Nat.le_of_eq hpos₁.symm)
    rw [if_neg hbreak, if_neg hbreak]
    by_cases hcontinue : c.peek.isName continueName = true
    · obtain ⟨r₁, hadvance, h₁, hpos₁⟩ :=
        h.advance (ne_nil_of_peek (fun _ ht => isName_of_end ht _) hcontinue)
      simp only [hcontinue, if_true, hadvance, ok_bind]
      exact .ok h₁ (Nat.le_of_eq hpos₁.symm)
    rw [if_neg hcontinue, if_neg hcontinue]
    apply (binary_agrees D h (by omega) (by omega)).bind
    intro value r₁ c₁ h₁ hpos₁
    exact .ok h₁ hpos₁

/-- Both read the same parameter, or meet the same fault. -/
theorem parameter_agrees {r : TokenReader} {c : Cursor} (h : Shows tokens front finish r c) :
    Agrees tokens front finish (r.pos + 1) (parameter r) (parameterAt c) := by
  apply (h.expectName .parameterName).bind
  intro t r' c' h' hpos
  exact .ok h' hpos

/-- A definition of a function. -/
theorem functionDef_agrees {D d : Nat} {r : TokenReader} {c : Cursor}
    (h : Shows tokens front finish r c) (hD : 8 * c.ahead.length ≤ D)
    (hd : 3 * c.ahead.length ≤ d) :
    Agrees tokens front finish (r.pos + 1) (functionDef d r) (Parse.functionDef D c) := by
  have hlength := h.length_add
  rw [functionDef, Parse.functionDef]
  apply (h.expectWord .fnWord).bind
  intro start r₁ c₁ h₁ hpos₁
  apply (h₁.expectName .functionName).bind
  intro name r₂ c₂ h₂ hpos₂
  apply (h₂.expectMark .lParen).bind
  intro _ r₃ c₃ h₃ hpos₃
  have hlength₃ := h₃.length_add
  apply (list_agrees readsList_parameters (fun _ _ _ _ h _ _ => parameter_agrees h) h₃
    (Nat.le_refl _) (by omega)).bind
  intro params r₄ c₄ h₄ hpos₄
  apply (h₄.expectMark .rParen).bind
  intro _ r₅ c₅ h₅ hpos₅
  have hlength₅ := h₅.length_add
  apply (block_agrees (fun D' _ => statement_agrees D') h₅ (by omega) (by omega)).bind
  intro body r₆ c₆ h₆ hpos₆
  simp only [h₆.spanSince (show 0 < r₆.pos by omega), ok_bind]
  exact .ok h₆ (by omega)

/-! ## Modules -/

/-- The items of a module.  The reader passes the separators before an item with the item before,
the cursor with the item behind them. -/
theorem items_agree {D d : Nat} :
    ∀ {k : Nat} {before : Block} {r : TokenReader} {c : Cursor},
      Shows tokens front finish r c.skipSeparators → 8 * c.skipSeparators.ahead.length + 1 ≤ D →
      3 * c.skipSeparators.ahead.length ≤ d → c.skipSeparators.ahead.length < k →
      Agrees tokens front finish r.pos (turns (itemTurn d) k before r)
        (joined before (Parse.items D c)) := by
  induction D with
  | zero =>
    intro k before r c _ hD
    exact absurd hD (Nat.not_succ_le_zero _)
  | succ D ih =>
    intro k before r c h hD hd hk
    obtain ⟨k, rfl⟩ := Nat.exists_eq_add_one_of_ne_zero (Nat.ne_zero_of_lt hk)
    have hlength := h.length_add
    -- Whatever stands before the separators, the next turn goes on behind them.
    have hnext : ∀ {before r₁ c₁}, Shows tokens front finish r₁ c₁ → r.pos < r₁.pos →
        Agrees tokens front finish r.pos
          (r₁.skipSeparators >>= fun r₂ =>
            if r.pos < r₂.pos then turns (itemTurn d) k before r₂
            else .error (.breach (.stalled r.pos)))
          (joined before (Parse.items D c₁)) := by
      intro before r₁ c₁ h₁ hpos₁
      obtain ⟨r₂, hseparators, h₂, hpos₂⟩ := h₁.skipSeparators
      have hlength₂ := h₂.length_add
      rw [hseparators, ok_bind, if_pos (by omega)]
      exact (ih h₂ (by omega) (by omega) (by omega)).mono (by omega)
    rw [turns, itemTurn, Parse.items]
    simp only [h.atEnd, h.atWord, ok_bind]
    by_cases hend : c.skipSeparators.atEnd = true
    · rw [if_pos hend, if_pos hend]
      show Agrees _ _ _ _ (.ok (before, r)) (.ok (before ++ [], _))
      rw [List.append_nil]
      exact .ok h (Nat.le_refl _)
    rw [if_neg hend, if_neg hend]
    by_cases hlet : c.skipSeparators.atWord .letWord = true
    · rw [if_pos hlet, if_pos hlet, joined_bind]
      simp only [bind_assoc]
      apply (letDecl_agrees h (by omega) (by omega)).bind
      intro s r₁ c₁ h₁ hpos₁
      simp only [joined_cons]
      exact hnext h₁ hpos₁
    rw [if_neg hlet, if_neg hlet]
    by_cases hfn : c.skipSeparators.atWord .fnWord = true
    · rw [if_pos hfn, if_pos hfn, joined_bind]
      simp only [bind_assoc]
      apply (functionDef_agrees h (by omega) (by omega)).bind
      intro s r₁ c₁ h₁ hpos₁
      simp only [joined_cons]
      exact hnext h₁ hpos₁
    rw [if_neg hfn, if_neg hfn]
    have hne : c.skipSeparators.ahead ≠ [] := fun hnil => hend (List.isEmpty_iff.mpr hnil)
    obtain ⟨r₁, hadvance, h₁, hpos₁⟩ := h.advance hne
    simp only [hadvance, ok_bind, bind_assoc]
    exact hnext h₁ (by omega)

/-- An end of the input is added at most behind the tokens. -/
theorem exists_closed (tokens : List Token) : ∃ rest, closed tokens = tokens ++ rest := by
  rw [closed]
  split
  next hlast =>
    rw [List.getLast?_eq_none_iff.mp hlast]
    exact ⟨_, rfl⟩
  next t hlast =>
    split
    · exact ⟨[], (List.append_nil _).symm⟩
    · exact ⟨_, rfl⟩

/-- The tokens of a reader have an end of the input, and the first one is where the cursor ends. -/
theorem ends_closed (tokens : List Token) :
    Ends (closed tokens).toArray (tokens.takeWhile fun t => t.kind != .endOfInput)
      (match tokens.find? fun t => t.kind == .endOfInput with
        | some t => t.span
        | none => (tokens.getLast?.map fun t => t.span.atStop).getD .zero) where
  split := by
    cases hfind : tokens.find? fun t => t.kind == .endOfInput with
    | some t =>
      obtain ⟨hkind, before, behind, rfl, hbefore⟩ := List.find?_eq_some_iff_append.mp hfind
      -- What is added behind the first end of the input is never looked at.
      obtain ⟨rest, hclosed⟩ := exists_closed (before ++ t :: behind)
      have hend : (t.kind != .endOfInput) = false := by
        rw [bne, hkind]
        rfl
      refine ⟨t, behind ++ rest, ?_, beq_iff_eq.mp hkind, rfl⟩
      rw [hclosed, List.takeWhile_append_of_pos (fun u hu => by simpa [bne] using hbefore u hu),
        List.takeWhile_cons, hend]
      simp
    | none =>
      have hplain : ∀ t ∈ tokens, (t.kind != .endOfInput) = true := by
        intro t ht
        have hkind := List.find?_eq_none.mp hfind t ht
        simpa [bne] using hkind
      have hfront : tokens.takeWhile (fun t => t.kind != .endOfInput) = tokens := by
        have happend : (tokens ++ []).takeWhile _ = tokens ++ [].takeWhile _ :=
          List.takeWhile_append_of_pos hplain
        rwa [List.append_nil, List.takeWhile_nil, List.append_nil] at happend
      rw [hfront, closed]
      -- An end of the input is added behind the last token, if there is one.
      cases hlast : tokens.getLast? with
      | none =>
        rw [List.getLast?_eq_none_iff.mp hlast]
        exact ⟨_, [], rfl, rfl, rfl⟩
      | some t =>
        have hkind := hplain t (List.mem_of_getLast? hlast)
        refine ⟨Token.endAt t.span.atStop, [], ?_, rfl, rfl⟩
        dsimp only
        rw [if_neg (bne_iff_ne.mp hkind)]
  plain := by
    intro t ht
    exact bne_iff_ne.mp (List.all_eq_true.mp List.all_takeWhile t ht)

/-- At the start both stand at the same token. -/
theorem shows_ofTokens (tokens : List Token) :
    Shows (ofTokens tokens).tokens (Cursor.ofTokens tokens).ahead (Cursor.ofTokens tokens).finish
      (ofTokens tokens) (Cursor.ofTokens tokens) where
  ends := ends_closed _
  tokens_eq := rfl
  pos_le := Nat.zero_le _
  ahead_eq := rfl
  finish_eq := rfl
  last_eq := nofun
  nextId_eq := rfl

/-- What a reader and a cursor come to from the first of some tokens. -/
theorem start_agrees (tokens : List Token) :
    Agrees (ofTokens tokens).tokens (Cursor.ofTokens tokens).ahead (Cursor.ofTokens tokens).finish 0
      (do
        let r ← (ofTokens tokens).skipSeparators
        r.loop [] (itemTurn (3 * (ofTokens tokens).tokens.size)))
      (Parse.items (Parse.depthFor (Cursor.ofTokens tokens)) (Cursor.ofTokens tokens)) := by
  have h := shows_ofTokens tokens
  have hlength := h.length_add
  have hlt := h.length_lt
  obtain ⟨r, hseparators, h', hpos⟩ := h.skipSeparators
  have hlength' := h'.length_add
  have hstart : (ofTokens tokens).pos = 0 := rfl
  rw [hseparators, ok_bind, loop, ← joined_nil (Parse.items ..)]
  apply (items_agree h' _ _ h'.length_lt).mono (Nat.zero_le _)
  · rw [Parse.depthFor]
    omega
  · omega

end TokenReader

namespace Module

/-- A fault that parsing meets is at one of the tokens. -/
theorem fault_of_parse {tokens : List Token} {f : SyntaxFault}
    (h : Module.parse tokens = .error f) :
    f ≠ .tooDeep ∧ ∃ t ∈ (TokenReader.ofTokens tokens).tokens, t.span = f.diagnostic.span := by
  rw [Module.parse] at h
  obtain ⟨body, r, c, -, hitems, -⟩ | ⟨g, -, hitems, hdeep, hspan⟩ :=
    (TokenReader.start_agrees tokens).ok_or_fault
  · rw [hitems] at h
    cases h
  · rw [hitems] at h
    cases h
    exact ⟨hdeep, hspan⟩

/-- Reading by index comes to the same module or the same fault, whatever the tokens are. -/
theorem parse_indexed (tokens : List Token) :
    Module.parse tokens ≠ .error .tooDeep ∧
      TokenReader.parse tokens =
        (Module.parse tokens).mapError fun f => Stop.fault f.diagnostic := by
  constructor
  · intro h
    exact (fault_of_parse h).1 rfl
  · rw [TokenReader.parse, Module.parse]
    dsimp only
    rw [← bind_assoc]
    obtain ⟨body, r, c, hloop, hitems, hshows, -⟩ | ⟨g, hloop, hitems, -⟩ :=
      (TokenReader.start_agrees tokens).ok_or_fault
    · rw [hloop, hitems]
      show Except.ok (Module.mk body r.nextId) = .ok (Module.mk body c.nextId)
      rw [hshows.nextId_eq]
    · rw [hloop, hitems]
      rfl

end Module

end Scriptlet
