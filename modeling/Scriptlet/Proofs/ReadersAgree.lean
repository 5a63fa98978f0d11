import Scriptlet.Proofs.IndexedReading
import Scriptlet.Proofs.Reading

/-!
# Readers and cursors

A reader shows a cursor if the tokens from its index up to the first end of the input are those
ahead of the cursor (`TokenReader.Shows`).  Then both see the same next token, and each step that
one takes the other takes, too.  For steps that can meet a fault, `TokenReader.Agrees` says that the
two come to the same.
-/

namespace Scriptlet

/-! ## Cursors that skip -/

namespace Cursor

variable {p : Token → Bool} {c : Cursor}

/-- A token that satisfies the condition is skipped first. -/
theorem skipWhile_of_pos (hne : c.ahead ≠ []) (hp : p c.peek = true) :
    c.skipWhile p = c.advance.skipWhile p := by
  obtain ⟨t, rest, hahead⟩ := List.exists_cons_of_ne_nil hne
  rw [peek_of_ahead hahead] at hp
  rw [advance, skipWhile, skipWhile, hahead]
  simp only [List.takeWhile_cons, List.dropWhile_cons, hp, if_true, List.getLast?_cons]
  cases (rest.takeWhile p).getLast? <;> rfl

/-- If the next token does not satisfy the condition, nothing is skipped. -/
theorem skipWhile_of_neg (hp : c.ahead ≠ [] → p c.peek = false) : c.skipWhile p = c := by
  cases hahead : c.ahead with
  | nil =>
    cases c
    cases hahead
    rfl
  | cons t rest =>
    have hpeek := hp (by simp [hahead])
    exact skipWhile_eq_self hahead (peek_of_ahead hahead ▸ hpeek)

/-- What has been skipped is not skipped again. -/
theorem skipWhile_skipWhile (p : Token → Bool) (c : Cursor) :
    (c.skipWhile p).skipWhile p = c.skipWhile p := by
  apply skipWhile_of_neg
  intro hne
  obtain ⟨t, rest, hahead⟩ := List.exists_cons_of_ne_nil hne
  have hdrop : c.ahead.dropWhile p = t :: rest := hahead
  have hhead := List.head?_dropWhile_not p c.ahead
  rw [hdrop] at hhead
  rw [peek_of_ahead hahead]
  simpa using hhead

end Cursor

namespace TokenReader

/-! ## Readers and cursors -/

theorem ok_bind {ε α β : Type} (a : α) (f : α → Except ε β) : (Except.ok a >>= f) = f a := rfl

/-- The first end of the input among some tokens stands behind `front`, at the span `finish`. -/
structure Ends (tokens : Array Token) (front : List Token) (finish : Span) : Prop where
  split : ∃ t rest, tokens.toList = front ++ t :: rest ∧ t.kind = .endOfInput ∧ t.span = finish
  plain : ∀ t ∈ front, t.kind ≠ .endOfInput

/-- A reader stands at the same token as a cursor. -/
structure Shows (tokens : Array Token) (front : List Token) (finish : Span) (r : TokenReader)
    (c : Cursor) : Prop where
  ends : Ends tokens front finish
  tokens_eq : r.tokens = tokens
  pos_le : r.pos ≤ front.length
  ahead_eq : c.ahead = front.drop r.pos
  finish_eq : c.finish = finish
  last_eq : ∀ n, r.pos = n + 1 → (front[n]?).map Token.span = some c.last
  nextId_eq : r.nextId = c.nextId

variable {tokens : Array Token} {front : List Token} {finish : Span}

/-- There is at least one token behind the front, the end of the input. -/
theorem Ends.length_lt (h : Ends tokens front finish) : front.length < tokens.size := by
  obtain ⟨t, rest, hsplit, -, -⟩ := h.split
  rw [← Array.length_toList, hsplit, List.length_append, List.length_cons]
  omega

/-- The tokens of the front are tokens of the array. -/
theorem Ends.mem (h : Ends tokens front finish) {t : Token} (ht : t ∈ front) : t ∈ tokens := by
  obtain ⟨u, rest, hsplit, -, -⟩ := h.split
  rw [Array.mem_def, hsplit]
  exact List.mem_append_left _ ht

/-- The span of the end of the input is the span of a token. -/
theorem Ends.exists_finish (h : Ends tokens front finish) : ∃ t ∈ tokens, t.span = finish := by
  obtain ⟨t, rest, hsplit, -, hspan⟩ := h.split
  refine ⟨t, ?_, hspan⟩
  rw [Array.mem_def, hsplit]
  exact List.mem_append_right _ (List.mem_cons_self ..)

namespace Shows

variable {r : TokenReader} {c : Cursor}

/-- What lies ahead and what lies behind make up the front. -/
theorem length_add (h : Shows tokens front finish r c) :
    c.ahead.length + r.pos = front.length := by
  rw [h.ahead_eq, List.length_drop, Nat.sub_add_cancel h.pos_le]

/-- Fewer tokens lie ahead than there are in the array, so the bound on the turns of a loop is never
met. -/
theorem length_lt (h : Shows tokens front finish r c) : c.ahead.length < r.tokens.size := by
  have hlt := h.ends.length_lt
  have hlength := h.length_add
  rw [h.tokens_eq]
  omega

/-- Every index up to the first end of the input has a token. -/
theorem look (h : Shows tokens front finish r c) {index : Nat} (hindex : index < front.length) :
    r.look index = .ok front[index] := by
  obtain ⟨t, rest, hsplit, -, -⟩ := h.ends.split
  have htoken : r.tokens[index]? = some front[index] := by
    rw [h.tokens_eq, ← Array.getElem?_toList, hsplit, List.getElem?_append_left hindex,
      List.getElem?_eq_getElem hindex]
  rw [TokenReader.look, htoken]

/-- At the end of the front the reader sees the end of the input. -/
theorem look_finish (h : Shows tokens front finish r c) :
    ∃ t, r.look front.length = .ok t ∧ t.kind = .endOfInput ∧ t.span = finish := by
  obtain ⟨t, rest, hsplit, hkind, hspan⟩ := h.ends.split
  have htoken : r.tokens[front.length]? = some t := by
    rw [h.tokens_eq, ← Array.getElem?_toList, hsplit, List.getElem?_append_right (Nat.le_refl _),
      Nat.sub_self]
    rfl
  exact ⟨t, by rw [TokenReader.look, htoken], hkind, hspan⟩

/-- The next token is the one that the cursor is at.  At the end of the input the texts may
differ. -/
theorem peek (h : Shows tokens front finish r c) :
    ∃ t, r.peek = .ok t ∧
      (c.ahead ≠ [] ∧ t = c.peek ∨
        c.ahead = [] ∧ t.kind = .endOfInput ∧ t.span = c.finish) := by
  rcases Nat.lt_or_ge r.pos front.length with hlt | hge
  · refine ⟨front[r.pos], h.look hlt, .inl ?_⟩
    have hahead : c.ahead = front[r.pos] :: front.drop (r.pos + 1) := by
      rw [h.ahead_eq, List.drop_eq_getElem_cons hlt]
    rw [Cursor.peek, hahead]
    exact ⟨List.cons_ne_nil _ _, rfl⟩
  · obtain ⟨t, hlook, hkind, hspan⟩ := h.look_finish
    have hpos : r.pos = front.length := Nat.le_antisymm h.pos_le hge
    refine ⟨t, by rw [TokenReader.peek, hpos]; exact hlook, .inr ⟨?_, hkind, ?_⟩⟩
    · rw [h.ahead_eq, hpos, List.drop_length]
    · rw [hspan, h.finish_eq]

/-- Both see the same next token while there is one. -/
theorem peek_of_ne_nil (h : Shows tokens front finish r c) (hne : c.ahead ≠ []) :
    r.peek = .ok c.peek := by
  obtain ⟨t, hpeek, ⟨-, rfl⟩ | ⟨hnil, -⟩⟩ := h.peek
  · exact hpeek
  · exact absurd hnil hne

/-- Both see the same span, also at the end of the input. -/
theorem peek_span (h : Shows tokens front finish r c) : r.peekSpan = .ok c.peek.span := by
  obtain ⟨t, hpeek, ⟨-, rfl⟩ | ⟨hnil, -, hspan⟩⟩ := h.peek
  · rw [peekSpan, hpeek]
    rfl
  · rw [peekSpan, hpeek, Cursor.peek, hnil]
    exact congrArg Except.ok hspan

/-- What lies ahead is a part of the front. -/
theorem mem_front (h : Shows tokens front finish r c) {t : Token} (ht : t ∈ c.ahead) :
    t ∈ front := by
  rw [h.ahead_eq] at ht
  exact List.mem_of_mem_drop ht

/-- The next token of a cursor that is not at its end lies ahead. -/
theorem peek_mem {c : Cursor} (hne : c.ahead ≠ []) : c.peek ∈ c.ahead := by
  obtain ⟨t, rest, hahead⟩ := List.exists_cons_of_ne_nil hne
  rw [Cursor.peek, hahead]
  exact List.mem_cons_self ..

/-- A token of the front is not the end of the input. -/
theorem peek_kind_ne (h : Shows tokens front finish r c) (hne : c.ahead ≠ []) :
    c.peek.kind ≠ .endOfInput :=
  h.ends.plain _ (h.mem_front (peek_mem hne))

/-- The span of the next token is that of one of the tokens. -/
theorem exists_peek (h : Shows tokens front finish r c) : ∃ t ∈ tokens, t.span = c.peek.span := by
  by_cases hne : c.ahead = []
  · obtain ⟨t, ht, hspan⟩ := h.ends.exists_finish
    refine ⟨t, ht, ?_⟩
    rw [hspan, Cursor.peek, hne, ← h.finish_eq]
    rfl
  · exact ⟨c.peek, h.ends.mem (h.mem_front (peek_mem hne)), rfl⟩

/-- A condition that does not look at the text of the end of the input has one answer for both. -/
theorem test (h : Shows tokens front finish r c) {p : Token → Bool}
    (hp : ∀ t u : Token, t.kind = .endOfInput → u.kind = .endOfInput → p t = p u) :
    r.test p = .ok (p c.peek) := by
  obtain ⟨t, hpeek, ⟨-, rfl⟩ | ⟨hnil, hkind, -⟩⟩ := h.peek
  · rw [TokenReader.test, hpeek]
    rfl
  · have hend : c.peek.kind = .endOfInput := by
      rw [Cursor.peek, hnil]
      rfl
    rw [TokenReader.test, hpeek, ← hp t c.peek hkind hend]
    rfl

/-- Both see the same mark, or none. -/
theorem atMark (h : Shows tokens front finish r c) (o : Operator) :
    r.atMark o = .ok (c.atMark o) := by
  apply h.test
  intro t u ht hu
  rw [Token.isOperator, Token.isOperator, ht, hu]

/-- Both see the same reserved word, or none. -/
theorem atWord (h : Shows tokens front finish r c) (k : Keyword) :
    r.atWord k = .ok (c.atWord k) := by
  apply h.test
  intro t u ht hu
  rw [Token.isKeyword, Token.isKeyword, ht, hu]

/-- Both see the same name, or none. -/
theorem atName (h : Shows tokens front finish r c) (name : String) :
    r.atName name = .ok (c.peek.isName name) := by
  apply h.test
  intro t u ht hu
  rw [Token.isName, Token.isName, ht, hu]
  rfl

/-- Both are at the end together. -/
theorem atEnd (h : Shows tokens front finish r c) : r.atEnd = .ok c.atEnd := by
  have htest : r.atEnd = .ok (c.peek.kind == .endOfInput) := by
    apply h.test
    intro t u ht hu
    rw [ht, hu]
  rw [htest, Cursor.atEnd]
  by_cases hne : c.ahead = []
  · rw [Cursor.peek, hne]
    rfl
  · rw [beq_eq_false_iff_ne.mpr (h.peek_kind_ne hne), List.isEmpty_eq_false_iff.mpr hne]

/-- Both are at the end of a statement together. -/
theorem atStatementEnd (h : Shows tokens front finish r c) :
    r.atStatementEnd = .ok (Parse.atStatementEnd c) := by
  have hend := h.atEnd
  have htest : r.atStatementEnd = .ok (c.peek.kind == .endOfInput || c.peek.kind == .newline ||
      c.peek.isOperator .semicolon || c.peek.isOperator .rBrace) := by
    apply h.test
    intro t u ht hu
    simp only [Token.isOperator, ht, hu]
  have hsame : c.atEnd = (c.peek.kind == .endOfInput) := by
    rw [TokenReader.atEnd, h.test (fun t u ht hu => by rw [ht, hu])] at hend
    exact (Except.ok.inj hend).symm
  rw [htest, Parse.atStatementEnd, hsame]
  rfl

/-- Behind the next token the reader stands where the cursor stands. -/
theorem moved (h : Shows tokens front finish r c) (hne : c.ahead ≠ []) :
    r.moveTo (r.pos + 1) = .ok { r with pos := r.pos + 1 } ∧
      Shows tokens front finish { r with pos := r.pos + 1 } c.advance := by
  have hlt : r.pos < front.length := by
    have hlength := h.length_add
    have := List.length_pos_iff.mpr hne
    omega
  have hahead : c.ahead = front[r.pos] :: front.drop (r.pos + 1) := by
    rw [h.ahead_eq, List.drop_eq_getElem_cons hlt]
  have hsize := h.ends.length_lt
  constructor
  · rw [moveTo, if_pos]
    rw [h.tokens_eq]
    omega
  · rw [Cursor.advance, hahead]
    refine ⟨h.ends, h.tokens_eq, hlt, rfl, h.finish_eq, ?_, h.nextId_eq⟩
    intro n hn
    obtain rfl : r.pos = n := Nat.succ.inj hn
    rw [List.getElem?_eq_getElem hlt]
    rfl

/-- Both move on by one token, and the reader by one index. -/
theorem advance (h : Shows tokens front finish r c) (hne : c.ahead ≠ []) :
    ∃ r', r.advance = .ok r' ∧ Shows tokens front finish r' c.advance ∧ r'.pos = r.pos + 1 := by
  have hkind : (c.peek.kind == .endOfInput) = false :=
    beq_eq_false_iff_ne.mpr (h.peek_kind_ne hne)
  obtain ⟨hmove, hmoved⟩ := h.moved hne
  refine ⟨_, ?_, hmoved, rfl⟩
  rw [TokenReader.advance, h.peek_of_ne_nil hne, ok_bind, hkind]
  exact hmove

/-- Once a token has been read, the token read last is the one before the next. -/
theorem spanSince (h : Shows tokens front finish r c) (hpos : 0 < r.pos) (start : Span) :
    r.spanSince start = .ok (c.spanSince start) := by
  obtain ⟨n, hn⟩ := Nat.exists_eq_succ_of_ne_zero (Nat.ne_of_gt hpos)
  have hlt : n < front.length := by
    have := h.pos_le
    omega
  have hlast := h.last_eq n hn
  rw [List.getElem?_eq_getElem hlt] at hlast
  have hspan : front[n].span = c.last := Option.some.inj hlast
  rw [TokenReader.spanSince, hn, Nat.succ_sub_one, h.look hlt, Cursor.spanSince, ← hspan]
  rfl

/-- Both give out the same number. -/
theorem takeId (h : Shows tokens front finish r c) :
    Shows tokens front finish r.takeId c.takeId :=
  ⟨h.ends, h.tokens_eq, h.pos_le, h.ahead_eq, h.finish_eq, h.last_eq,
    congrArg (· + 1) h.nextId_eq⟩

end Shows

/-! ## Answers that agree -/

/-- A reader and a cursor come to the same: both read the same thing and stand at the same token,
behind the given index, or both meet the same fault, which is at one of the tokens. -/
inductive Agrees (tokens : Array Token) (front : List Token) (finish : Span) {α : Type} (n : Nat) :
    Except Stop (α × TokenReader) → Except SyntaxFault (α × Cursor) → Prop
  | ok {a : α} {r : TokenReader} {c : Cursor} (hshows : Shows tokens front finish r c)
      (hpos : n ≤ r.pos) : Agrees tokens front finish n (.ok (a, r)) (.ok (a, c))
  | fault {f : SyntaxFault} (hdeep : f ≠ .tooDeep)
      (hspan : ∃ t ∈ tokens, t.span = f.diagnostic.span) :
      Agrees tokens front finish n (.error (.fault f.diagnostic)) (.error f)

/-- Steps that agree both succeed with the same result, or both meet the same fault, whose span is
the span of a token.  The reader meets no breach. -/
theorem Agrees.ok_or_fault {α : Type} {n : Nat} {x : Except Stop (α × TokenReader)}
    {y : Except SyntaxFault (α × Cursor)} (h : Agrees tokens front finish n x y) :
    (∃ a r c, x = .ok (a, r) ∧ y = .ok (a, c) ∧ Shows tokens front finish r c ∧ n ≤ r.pos) ∨
      ∃ f, x = .error (.fault f.diagnostic) ∧ y = .error f ∧ f ≠ .tooDeep ∧
        ∃ t ∈ tokens, t.span = f.diagnostic.span := by
  cases h with
  | ok hshows hpos => exact .inl ⟨_, _, _, rfl, rfl, hshows, hpos⟩
  | fault hdeep hspan => exact .inr ⟨_, rfl, rfl, hdeep, hspan⟩

/-- Two steps agree if the second ones do wherever the first ones come to. -/
theorem Agrees.bind {α β : Type} {n m : Nat} {x : Except Stop (α × TokenReader)}
    {y : Except SyntaxFault (α × Cursor)} {f : α × TokenReader → Except Stop (β × TokenReader)}
    {g : α × Cursor → Except SyntaxFault (β × Cursor)} (h : Agrees tokens front finish n x y)
    (hnext : ∀ a r c, Shows tokens front finish r c → n ≤ r.pos →
      Agrees tokens front finish m (f (a, r)) (g (a, c))) :
    Agrees tokens front finish m (x >>= f) (y >>= g) := by
  cases h with
  | ok hshows hpos => exact hnext _ _ _ hshows hpos
  | fault hdeep hspan => exact .fault hdeep hspan

/-- A reader that has moved to an index has moved to every one before it. -/
theorem Agrees.mono {α : Type} {n m : Nat} {x : Except Stop (α × TokenReader)}
    {y : Except SyntaxFault (α × Cursor)} (h : Agrees tokens front finish n x y) (hle : m ≤ n) :
    Agrees tokens front finish m x y := by
  cases h with
  | ok hshows hpos => exact .ok hshows (Nat.le_trans hle hpos)
  | fault hdeep hspan => exact .fault hdeep hspan

/-! ## Skipping and expecting -/

/-- Where a token satisfies a condition that the end of the input does not, some token is ahead. -/
theorem ne_nil_of_peek {p : Token → Bool} (hp : ∀ t : Token, t.kind = .endOfInput → p t = false)
    {c : Cursor} (h : p c.peek = true) : c.ahead ≠ [] := by
  intro hnil
  have hend : c.peek.kind = .endOfInput := by
    rw [Cursor.peek, hnil]
    rfl
  rw [hp _ hend] at h
  cases h

/-- The end of the input is no mark. -/
theorem isOperator_of_end {t : Token} (ht : t.kind = .endOfInput) (o : Operator) :
    t.isOperator o = false := by
  rw [Token.isOperator, ht]
  rfl

/-- The end of the input is no reserved word. -/
theorem isKeyword_of_end {t : Token} (ht : t.kind = .endOfInput) (k : Keyword) :
    t.isKeyword k = false := by
  rw [Token.isKeyword, ht]
  rfl

/-- The end of the input is no name. -/
theorem isName_of_end {t : Token} (ht : t.kind = .endOfInput) (name : String) :
    t.isName name = false := by
  rw [Token.isName, ht]
  rfl

theorem ne_nil_of_atMark {c : Cursor} {o : Operator} (h : c.atMark o = true) : c.ahead ≠ [] :=
  ne_nil_of_peek (fun _ ht => isOperator_of_end ht o) h

theorem ne_nil_of_atWord {c : Cursor} {k : Keyword} (h : c.atWord k = true) : c.ahead ≠ [] :=
  ne_nil_of_peek (fun _ ht => isKeyword_of_end ht k) h

namespace Shows

variable {r : TokenReader} {c : Cursor}

/-- A loop that skips tokens moves with every turn but the last. -/
theorem turns_skip {p : Token → Bool} (hp : ∀ t : Token, t.kind = .endOfInput → p t = false) :
    ∀ (n : Nat) {r : TokenReader} {c : Cursor}, Shows tokens front finish r c →
      c.ahead.length < n → ∃ r', turns (skipTurn p) n () r = .ok ((), r') ∧
        Shows tokens front finish r' (c.skipWhile p) ∧ r.pos ≤ r'.pos := by
  intro n
  induction n with
  | zero =>
    intro r c _ hlt
    exact absurd hlt (Nat.not_lt_zero _)
  | succ n ih =>
    intro r c h hlt
    have htest : r.test p = .ok (p c.peek) := h.test fun t u ht hu => by rw [hp t ht, hp u hu]
    by_cases hskip : c.ahead ≠ [] ∧ p c.peek = true
    · obtain ⟨hne, hpeek⟩ := hskip
      have hlength := h.length_add
      obtain ⟨next, hadvance, hnext, hpos⟩ := h.advance hne
      have hlength' := hnext.length_add
      obtain ⟨r', hturns, hshows, hpos'⟩ := ih hnext (by omega)
      refine ⟨r', ?_, ?_, by omega⟩
      · rw [turns, skipTurn, htest]
        simp only [ok_bind, hpeek, if_true, hadvance]
        show (if r.pos < next.pos then _ else _) = _
        rw [if_pos (by omega)]
        exact hturns
      · rwa [Cursor.skipWhile_of_pos hne hpeek]
    · have hpeek : p c.peek = false := by
        by_cases hne : c.ahead = []
        · exact hp _ (by rw [Cursor.peek, hne]; rfl)
        · simpa [hne] using hskip
      refine ⟨r, ?_, ?_, Nat.le_refl _⟩
      · rw [turns, skipTurn, htest]
        simp only [ok_bind, hpeek]
        rfl
      · rwa [Cursor.skipWhile_of_neg fun _ => hpeek]

/-- Both skip the same tokens, as long as the end of the input is not one that is skipped. -/
theorem skipWhile (h : Shows tokens front finish r c) {p : Token → Bool}
    (hp : ∀ t : Token, t.kind = .endOfInput → p t = false) :
    ∃ r', r.skipWhile p = .ok r' ∧ Shows tokens front finish r' (c.skipWhile p) ∧
      r.pos ≤ r'.pos := by
  obtain ⟨r', hturns, hshows, hpos⟩ := turns_skip hp r.tokens.size h h.length_lt
  refine ⟨r', ?_, hshows, hpos⟩
  rw [TokenReader.skipWhile, loop, hturns]
  rfl

/-- Both skip the same line ends. -/
theorem skipNewlines (h : Shows tokens front finish r c) :
    ∃ r', r.skipNewlines = .ok r' ∧ Shows tokens front finish r' c.skipNewlines ∧
      r.pos ≤ r'.pos := by
  apply h.skipWhile
  intro t ht
  rw [ht]
  rfl

/-- Both skip the same separators. -/
theorem skipSeparators (h : Shows tokens front finish r c) :
    ∃ r', r.skipSeparators = .ok r' ∧ Shows tokens front finish r' c.skipSeparators ∧
      r.pos ≤ r'.pos := by
  apply h.skipWhile
  intro t ht
  rw [isOperator_of_end ht, ht]
  rfl

/-- What the next token is called does not depend on the text of the end of the input. -/
theorem diagnostic_peek (h : Shows tokens front finish r c) {t : Token} (hpeek : r.peek = .ok t)
    (what : Expectation) :
    (SyntaxFault.expected what t).diagnostic = (SyntaxFault.expected what c.peek).diagnostic := by
  obtain ⟨u, hu, ⟨-, rfl⟩ | ⟨hnil, hkind, hspan⟩⟩ := h.peek <;> cases hu.symm.trans hpeek
  · rfl
  · have hend : c.peek = Token.endAt c.finish := by
      rw [Cursor.peek, hnil]
      rfl
    rw [SyntaxFault.diagnostic, SyntaxFault.diagnostic, Token.shown, hkind, hend, hspan]
    rfl

/-- Neither finds what is looked for. -/
theorem missed (h : Shows tokens front finish r c) {α : Type} {n : Nat} {t : Token}
    (hpeek : r.peek = .ok t) (what : Expectation) :
    Agrees tokens front finish n
      (.error (.fault (SyntaxFault.expected what t).diagnostic) : Except Stop (α × TokenReader))
      (.error (.expected what c.peek)) := by
  rw [h.diagnostic_peek hpeek]
  exact .fault (fun h => by cases h) h.exists_peek

/-- Both read the token that is looked for, or both miss it. -/
theorem expect (h : Shows tokens front finish r c) {p : Token → Bool}
    (hp : ∀ t : Token, t.kind = .endOfInput → p t = false) (what : Expectation) :
    Agrees tokens front finish (r.pos + 1) (r.expect p what) (c.expect p what) := by
  obtain ⟨t, hpeek, ht⟩ := h.peek
  rw [TokenReader.expect, hpeek, Cursor.expect, ok_bind]
  by_cases hread : p c.peek = true
  · obtain ⟨-, rfl⟩ | ⟨hnil, -⟩ := ht
    · obtain ⟨next, hadvance, hnext, hpos⟩ := h.advance (ne_nil_of_peek hp hread)
      rw [if_pos hread, if_pos hread, hadvance]
      exact .ok hnext (Nat.le_of_eq hpos.symm)
    · exact absurd hnil (ne_nil_of_peek hp hread)
  · have hmissed : p t ≠ true := by
      obtain ⟨-, rfl⟩ | ⟨-, hkind, -⟩ := ht
      · exact hread
      · rw [hp t hkind]
        exact Bool.false_ne_true
    rw [if_neg hread, if_neg hmissed]
    exact h.missed hpeek what

/-- Both meet the mark that is expected, or the same fault. -/
theorem expectMark (h : Shows tokens front finish r c) (o : Operator) :
    Agrees tokens front finish (r.pos + 1) (r.expectMark o) (c.expectMark o) :=
  h.expect (fun _ ht => isOperator_of_end ht o) _

/-- A mark that has been seen is read. -/
theorem expectMark_of_atMark (h : Shows tokens front finish r c) {o : Operator}
    (hmark : c.atMark o = true) :
    ∃ t r', r.expectMark o = .ok (t, r') ∧ Shows tokens front finish r' c.advance ∧
      r.pos < r'.pos := by
  have hexpect : c.expectMark o = .ok (c.peek, c.advance) := if_pos hmark
  obtain ⟨t, r', c', hread, hread', hshows, hpos⟩ | ⟨f, -, hfault, -⟩ :=
    (h.expectMark o).ok_or_fault
  · cases hexpect.symm.trans hread'
    exact ⟨_, r', hread, hshows, hpos⟩
  · cases hexpect.symm.trans hfault

/-- Both meet the reserved word that is expected, or the same fault. -/
theorem expectWord (h : Shows tokens front finish r c) (k : Keyword) :
    Agrees tokens front finish (r.pos + 1) (r.expectWord k) (c.expectWord k) :=
  h.expect (fun _ ht => isKeyword_of_end ht k) _

/-- Both meet a name, or the same fault. -/
theorem expectName (h : Shows tokens front finish r c) (what : Expectation) :
    Agrees tokens front finish (r.pos + 1) (r.expectName what) (c.expectName what) := by
  apply h.expect
  intro t ht
  rw [ht]
  rfl

/-- Behind line ends looked at without reading them, the reader would stand where the cursor stands
that has read them. -/
theorem passes_newlines (r : TokenReader) :
    ∀ (n : Nat) {index : Nat} {c : Cursor},
      Shows tokens front finish { r with pos := index } c → c.ahead.length < n →
      ∃ i, r.passNewlines n index = .ok i ∧
        Shows tokens front finish { r with pos := i } c.skipNewlines ∧ index ≤ i := by
  intro n
  induction n with
  | zero =>
    intro index c _ hlt
    exact absurd hlt (Nat.not_lt_zero _)
  | succ n ih =>
    intro index c h hlt
    obtain ⟨t, hpeek, ht⟩ := h.peek
    have hlook : r.look index = .ok t := hpeek
    rcases ht with ⟨hne, rfl⟩ | ⟨hnil, hkind, -⟩
    · -- Both see the same token, and both stop if it is no line end.
      by_cases hnewline : (c.peek.kind == .newline) = true
      · have hpos := List.length_pos_iff.mpr hne
        obtain ⟨i, hpass, hshows, hle⟩ := ih (h.moved hne).2 (by
          rw [Cursor.length_ahead_advance]
          omega)
        refine ⟨i, ?_, ?_, Nat.le_of_succ_le hle⟩
        · rw [passNewlines, hlook, ok_bind, if_pos hnewline]
          exact hpass
        · have hskip : c.skipNewlines = c.advance.skipNewlines :=
            Cursor.skipWhile_of_pos hne hnewline
          rwa [hskip]
      · refine ⟨index, ?_, ?_, Nat.le_refl _⟩
        · rw [passNewlines, hlook, ok_bind, if_neg hnewline]
          rfl
        · have hskip : c.skipNewlines = c :=
            Cursor.skipWhile_of_neg fun _ => Bool.eq_false_iff.mpr hnewline
          rwa [hskip]
    · refine ⟨index, ?_, ?_, Nat.le_refl _⟩
      · rw [passNewlines, hlook, ok_bind, hkind]
        rfl
      · have hskip : c.skipNewlines = c := Cursor.skipWhile_of_neg fun hne => absurd hnil hne
        rwa [hskip]

/-- Both find the same operator, or none. -/
theorem operator (h : Shows tokens front finish r c) (minPrec : Nat) :
    ∃ t, r.peek = .ok t ∧ Parse.operatorOf? minPrec t = Parse.operatorAhead? minPrec c := by
  obtain ⟨t, hpeek, ⟨-, rfl⟩ | ⟨hnil, hkind, -⟩⟩ := h.peek
  · exact ⟨_, hpeek, rfl⟩
  · refine ⟨t, hpeek, ?_⟩
    rw [Parse.operatorOf?, hkind, Parse.operatorAhead?, Cursor.peek, hnil]
    rfl

end Shows

end TokenReader

end Scriptlet
