import Scriptlet.Compile
import Scriptlet.Proofs.IndexSafety
import Scriptlet.Proofs.Positions
import Scriptlet.Proofs.Spans

/-!
# Where diagnostics point

A source text is refused with diagnostics, and each of them has a span.  Whatever stage it comes
from, the span covers a stretch of the text (`Span.Covers`): the character that starts no token, the
token that was not looked for, or the node that breaks a rule of scoping
(`Compile.covers_of_ofSource`).
-/

namespace Scriptlet

open String (utf8Len)

/-- A span covers some characters of a source text, with others before and behind them.  If the
first of them ends a line, it is the only one, and the span is empty only at the end of the text. -/
structure Span.Covers (source : String) (s : Span) (before inside behind : List Char) : Prop where
  text_eq : source.toList = before ++ (inside ++ behind)
  span_eq : s = (Place.origin.after before).spanTo (Place.origin.after (before ++ inside))
  lineEnd : ∀ c, c = '\n' ∨ c = '\r' → inside.head? = some c → inside = [c]
  finish : inside = [] → behind = []

/-- Two beginnings of a text that take as many bytes are the same. -/
theorem eq_of_utf8Len_eq {before before' rest rest' : List Char}
    (h : before ++ rest = before' ++ rest') (hlen : utf8Len before = utf8Len before') :
    before = before' ∧ rest = rest' := by
  rcases List.append_eq_append_iff.mp h with ⟨cs, rfl, rfl⟩ | ⟨cs, rfl, rfl⟩
  all_goals
    rw [String.utf8Len_append] at hlen
    have hcs : cs = [] := String.utf8Len_eq_zero.mp (by omega)
    rw [hcs, List.append_nil]
    exact ⟨rfl, rfl⟩

/-! ## Tokens -/

/-- Only the token for a line end starts with a character that ends a line. -/
theorem TokenKind.Spells.head_ne {kind : TokenKind} {text : List Char} (h : kind.Spells text)
    (hkind : kind ≠ .newline) {c : Char} (hc : c = '\n' ∨ c = '\r') :
    (kind.lexeme text).head? ≠ some c := by
  cases h with
  | keyword word => rcases hc with rfl | rfl <;> cases word <;> decide
  | operator mark => rcases hc with rfl | rfl <;> cases mark <;> decide
  | newline => exact absurd rfl hkind
  | string | comment => rcases hc with rfl | rfl <;> intro hhead <;> cases hhead
  | identifier hfirst => rcases hc with rfl | rfl <;> rintro ⟨⟩ <;> revert hfirst <;> decide
  | whole hfirst => rcases hc with rfl | rfl <;> rintro ⟨⟩ <;> revert hfirst <;> decide
  | fraction hfirst => rcases hc with rfl | rfl <;> rintro ⟨⟩ <;> revert hfirst <;> decide

namespace Scan

variable {source : String} {t : Token}

/-- A token that stands in a text covers its lexeme. -/
theorem StandsAt.covers {before text rest : List Char} {front : List Token} {kind : TokenKind}
    (hsource : source.toList = before ++ (kind.lexeme text ++ rest))
    (h : StandsAt .origin before front kind text rest t) :
    t.span.Covers source before (kind.lexeme text) rest where
  text_eq := hsource
  span_eq := by
    rw [h.token_eq, Place.after_append]
  lineEnd := by
    intro c hc hhead
    by_cases hkind : kind = .newline
    · subst hkind
      obtain rfl : text = ['\n'] := by
        cases h.longest.spells
        rfl
      cases hhead
      rfl
    · exact absurd hhead (h.longest.spells.head_ne hkind hc)
  finish := by
    intro hnil
    obtain ⟨c, tail, hlexeme, -⟩ := h.longest.spells.exists_lexeme
    rw [hlexeme] at hnil
    cases hnil

/-- The token for the end of a text is an empty stretch behind the last character. -/
theorem Split.span_of_end {cs : List Char} (h : Split cs) (p : Place) :
    ∀ t ∈ (fromPlace p cs).tokens, t.kind = .endOfInput →
      t.span = (p.after cs).spanTo (p.after cs) := by
  induction h generalizing p with
  | done hgap =>
    rw [fromPlace_gap p hgap]
    intro t ht _
    rw [List.mem_singleton.mp ht]
    rfl
  | stuck hgap hc hfault =>
    rw [fromPlace_stuck p hgap hc hfault]
    intro t ht
    cases ht
  | token hgap hlongest _ ih =>
    rw [fromPlace_token p hgap hlongest.readable]
    refine List.forall_mem_cons.mpr ⟨fun hkind => ?_, fun t ht hkind => ?_⟩
    · exact absurd hkind hlongest.spells.ne_endOfInput
    · rw [ih _ t ht hkind, Place.after_append, Place.after_append]

/-- Every token of a text but a comment covers a stretch of it. -/
theorem covers_of_mem_words (ht : t ∈ (ofString source).words) :
    ∃ before inside behind, t.span.Covers source before inside behind := by
  by_cases hkind : t.kind = .endOfInput
  · refine ⟨source.toList, [], [], (List.append_nil _).symm, ?_, ?_, fun _ => rfl⟩
    · rw [(split source.toList).span_of_end .origin t (List.mem_of_mem_filter ht) hkind,
        List.append_nil]
    · intro c _ hhead
      cases hhead
  · obtain ⟨front, behind, hwords⟩ := List.append_of_mem ht
    obtain ⟨before, kind, text, rest, hsource, hstands⟩ :=
      (split source.toList).exists_standsAt hwords hkind
    exact ⟨before, kind.lexeme text, rest, hstands.covers hsource⟩

/-- A fault of a scan covers the character where nothing can be read. -/
theorem covers_of_fault {d : Diagnostic} (hd : (ofString source).fault = some d) :
    ∃ before inside behind, d.span.Covers source before inside behind := by
  obtain ⟨before, c, rest, fault, hsource, -, hfault, rfl, -⟩ :=
    (split source.toList).exists_fault .origin hd
  have hmarked : fault.marked = c := by
    rcases fault_of_piece hfault with ⟨rfl, -⟩ | ⟨rfl, rfl⟩ <;> rfl
  refine ⟨before, [c], rest, hsource, ?_, ?_, ?_⟩
  · rw [LexicalFault.diagnostic, Place.spanTo, Place.after_append, Place.offset_after _ [c],
      hmarked, String.utf8Len_cons, String.utf8Len_nil, Nat.zero_add]
  · rintro c' - ⟨⟩
    rfl
  · intro hnil
    cases hnil

end Scan

/-! ## Nodes -/

/-- A passage that is a node of a tree, not a list of them. -/
def Passage.IsNode : Passage → Prop
  | expression _ | statement _ | conditional _ => True
  | _ => False

/-- Tokens do not start with a line end if the first is of another kind. -/
theorem TokenOf.head_ne {kind : TokenKind} (t : TokenOf kind) {ts us : List Token}
    (hts : ts = t.token :: us) (hkind : kind ≠ .newline) :
    ∀ u ∈ ts.head?, u.kind ≠ .newline := by
  rw [hts]
  rintro u ⟨⟩
  rwa [t.kind_eq]

/-- A node does not start with a line end. -/
theorem Over.head_ne {p : Passage} {ts : List Token} (h : Over p ts) (hp : p.IsNode) :
    ∀ t ∈ ts.head?, t.kind ≠ .newline := by
  induction h with
  | literal t ht =>
    rintro u ⟨⟩
    cases ht <;> simp_all
  | name t => exact t.head_ne rfl (by decide)
  | call callee _ _ _ _ hts => exact callee.head_ne hts (by decide)
  | group opening _ _ _ _ hts => exact opening.head_ne hts (by decide)
  | binary _ _ hleft _ hts ih =>
    obtain ⟨first, ls, rfl⟩ := List.exists_cons_of_ne_nil hleft.expression_span.1
    rw [hts]
    exact ih trivial
  | letStmt word _ _ _ hts => exact word.head_ne hts (by decide)
  | fnStmt word _ _ _ _ _ _ hts => exact word.head_ne hts (by decide)
  | returnStmt word => exact word.head_ne rfl (by decide)
  | returnValue word _ hts => exact word.head_ne hts (by decide)
  | breakStmt t ht | continueStmt t ht =>
    rintro u ⟨⟩
    simp_all [Token.isName]
  | exprStmt _ ih => exact ih trivial
  | whileStmt word _ _ hts => exact word.head_ne hts (by decide)
  | conditional _ ih => exact ih trivial
  | ifStmt word _ _ hts => exact word.head_ne hts (by decide)
  | ifElseIf word _ _ _ _ _ hts | ifElse word _ _ _ _ _ hts => exact word.head_ne hts (by decide)
  | _ => cases hp

/-- Tokens in order take up some of the text. -/
theorem Token.InOrder.extent_lt {ts : List Token} (h : InOrder ts) (hne : ts ≠ []) :
    (extent ts).start < (extent ts).stop := by
  obtain ⟨t, us, rfl⟩ := List.exists_cons_of_ne_nil hne
  have ht := List.mem_cons_self (a := t) (l := us)
  have hinside := h.inside_extent ht
  have hlt := h.nonempty t ht
  omega

/-- A node over tokens of a text in a row covers what stands from the first of them to the last. -/
theorem Over.covers {source : String} {x : Node} {front ts behind : List Token}
    (h : Over x.passage ts) (hwords : (Scan.ofString source).words = front ++ (ts ++ behind))
    (horder : Token.InOrder ts) (hkind : ∀ t ∈ ts, t.kind ≠ .endOfInput) :
    ∃ before inside rest, x.span.Covers source before inside rest := by
  obtain ⟨hne, hspan⟩ := h.node_span
  have hlt := horder.extent_lt hne
  obtain ⟨before, inside, rest, -, hsource, -, -, hstart, hstop⟩ :=
    Scan.exists_between hwords hne hkind
  obtain ⟨t, us, rfl⟩ := List.exists_cons_of_ne_nil hne
  obtain ⟨before', kind, text, rest', hsource', hstands⟩ :=
    (Scan.split source.toList).exists_standsAt hwords (hkind t (List.mem_cons_self ..))
  -- The first token stands where the node starts.
  have hfirst : (extent (t :: us)).start = (Place.origin.after before').offset := by
    show t.span.start = _
    rw [hstands.token_eq]
    rfl
  rw [hstart, Place.offset_after, Place.offset_after] at hfirst
  obtain ⟨rfl, hrest⟩ := eq_of_utf8Len_eq (hsource.symm.trans hsource') (Nat.add_left_cancel hfirst)
  have hinside : inside ≠ [] := by
    rintro rfl
    rw [hstart, hstop] at hlt
    exact absurd hlt (Nat.lt_irrefl _)
  refine ⟨before, inside, rest, hsource, ?_, ?_, fun hnil => absurd hnil hinside⟩
  · have hline : t.span.line = (Place.origin.after before).line := by
      rw [hstands.token_eq]
      rfl
    have hcolumn : t.span.column = (Place.origin.after before).column := by
      rw [hstands.token_eq]
      rfl
    rw [hspan, Place.spanTo, Place.after_append, ← hstart, ← hstop, ← hline, ← hcolumn]
    rfl
  · intro c hc hhead
    have hnewline : kind ≠ .newline := by
      have htoken := h.head_ne (by cases x <;> trivial) t rfl
      rwa [hstands.token_eq] at htoken
    obtain ⟨first, tail, hlexeme, -⟩ := hstands.longest.spells.exists_lexeme
    have hsame : (inside ++ rest).head? = (kind.lexeme text ++ rest').head? := by rw [hrest]
    rw [List.head?_append, hhead, hlexeme] at hsame
    refine absurd ?_ (hstands.longest.spells.head_ne hnewline hc)
    rw [hlexeme]
    exact hsame.symm

/-- Every node of a module that is read from a text covers a stretch of the text. -/
theorem Module.covers_of_has {source : String} {m : Module} {x : Node}
    (hscan : (Scan.ofString source).fault = none)
    (hparse : parse (Scan.ofString source).tokens = .ok m) (hx : m.Has x) :
    ∃ before inside behind, x.span.Covers source before inside behind := by
  obtain ⟨ts, finish, hwords, horder, hkind⟩ := Scan.exists_words hscan
  have hover := over_of_parse hparse hwords hkind horder
  obtain ⟨front, us, behind, rfl, hnode⟩ := hover.exists_tokens hx
  rw [List.append_assoc, List.append_assoc] at hwords
  exact hnode.covers hwords horder.right.left
    fun t ht => hkind t (List.mem_append_right _ (List.mem_append_left _ ht))

/-! ## Faults of scoping -/

/-- Every fault of a walk is at a node of a module. -/
def Walk.PointsInto (m : Module) (w : Walk) : Prop :=
  ∀ f ∈ w.faults, ∃ x, m.Has x ∧ x.span = f.span

namespace Walk

variable {m : Module} {w : Walk} {x : Node}

namespace PointsInto

theorem enter (h : w.PointsInto m) (kind : ScopeKind) : (w.enter kind).PointsInto m := h

theorem exit (h : w.PointsInto m) : w.exit.PointsInto m := h

/-- A fault that is reported at a node points there. -/
theorem report (h : w.PointsInto m) (hx : m.Has x) (fault : ScopeFault) :
    (w.report fault x.span).PointsInto m := by
  intro f hf
  rcases List.mem_append.mp hf with hf | hf
  · exact h f hf
  · rw [List.mem_singleton.mp hf]
    exact ⟨x, hx, rfl⟩

/-- So does a fault that is reported under a condition. -/
theorem reportIf (h : w.PointsInto m) (hx : m.Has x) (condition : Bool) (fault : ScopeFault) :
    (w.reportIf condition fault x.span).PointsInto m := by
  cases condition with
  | false => exact h
  | true => exact h.report hx fault

/-- A declaration that is refused is a fault at the node that declares. -/
theorem declare (h : w.PointsInto m) (hx : m.Has x) (name : String) (kind : SymbolKind)
    (fault : ScopeFault) : (w.declare name kind x.span fault).PointsInto m := by
  rw [Walk.declare]
  split
  · exact h.report hx fault
  · exact h

/-- Parameters that are refused are faults at the function. -/
theorem parameters (h : w.PointsInto m) (hx : m.Has x) (function : String) (params : List String) :
    (w.parameters function params x.span).PointsInto m := by
  induction params generalizing w with
  | nil => exact h
  | cons p rest ih => exact ih (h.declare hx p .variable _)

/-- A variable that cannot be seen is a fault at the node that uses it. -/
theorem useVariable (h : w.PointsInto m) (hx : m.Has x) (node : Nat) (name : String) :
    (w.useVariable node name x.span).PointsInto m := by
  rw [Walk.useVariable]
  split
  · exact h
  · exact h.report hx _

/-- A call that does not fit is a fault at the call. -/
theorem useFunction (h : w.PointsInto m) (hx : m.Has x) (node : Nat) (name : String) (args : Nat) :
    (w.useFunction node name args x.span).PointsInto m := by
  rw [Walk.useFunction]
  split
  · exact h.report hx _
  · split
    · split
      · exact h
      · exact h.report hx _
    · exact h
    · exact h.report hx _

mutual

/-- The faults of an expression of a module point into the module. -/
theorem expr : ∀ (e : Expr) {w : Walk}, w.PointsInto m → m.Has (.expression e) →
    (w.expr e).PointsInto m
  | .literal _ _, w, h, _ => by
    rw [Walk.expr]
    exact h
  | .name _ _ _, w, h, he => by
    rw [Walk.expr]
    exact h.useVariable he _ _
  | .binary _ _ left right, w, h, he => by
    rw [Walk.expr]
    have hleft := expr left h (he.part (by simp [Node.parts]))
    exact expr right hleft (he.part (by simp [Node.parts]))
  | .not _ operand, w, h, he => by
    rw [Walk.expr]
    exact expr operand h (he.part (by simp [Node.parts]))
  | .call _ _ _ args, w, h, he => by
    rw [Walk.expr]
    have hargs := exprs args h fun e hmem => he.part (List.mem_map_of_mem hmem)
    exact hargs.useFunction he _ _ _

/-- The faults of some expressions of a module point into the module. -/
theorem exprs : ∀ (es : List Expr) {w : Walk}, w.PointsInto m →
    (∀ e ∈ es, m.Has (.expression e)) → (w.exprs es).PointsInto m
  | [], w, h, _ => by
    rw [Walk.exprs]
    exact h
  | e :: rest, w, h, hes => by
    rw [Walk.exprs]
    have hfirst := expr e h (hes e (List.mem_cons_self ..))
    exact exprs rest hfirst fun e hmem => hes e (List.mem_cons_of_mem _ hmem)

end

/-- The same for a value that may be missing. -/
theorem expr? (h : w.PointsInto m) (value : Option Expr)
    (hvalue : ∀ e ∈ value, m.Has (.expression e)) : (w.expr? value).PointsInto m := by
  cases value with
  | none => exact h
  | some e => exact expr e h (hvalue e rfl)

mutual

/-- The faults of a statement of a module point into the module. -/
theorem stmt (around : Surroundings) : ∀ (s : Stmt) {w : Walk}, w.PointsInto m →
    m.Has (.statement s) → (w.stmt around s).PointsInto m
  | .letStmt _ _ value, w, h, hs => by
    rw [Walk.stmt]
    have hvalue := h.expr? value fun e he => hs.part (by simp_all [Node.parts])
    exact hvalue.declare hs _ _ _
  | .fnStmt _ name params body, w, h, hs => by
    rw [Walk.stmt]
    have hnested := h.reportIf hs (w.table.currentKind != .global) (.nestedFunction name)
    have hdeclared := hnested.declare hs name (.function params) (.duplicateFunction name)
    have hparams := (hdeclared.enter .function).parameters hs name params
    exact block ⟨0, true⟩ body hparams fun s hmem => hs.part (List.mem_map_of_mem hmem)
  | .returnStmt _ value, w, h, hs => by
    rw [Walk.stmt]
    exact (h.reportIf hs _ _).expr? value fun e he => hs.part (by simp_all [Node.parts])
  | .breakStmt _, w, h, hs => by
    rw [Walk.stmt]
    exact h.reportIf hs _ _
  | .continueStmt _, w, h, hs => by
    rw [Walk.stmt]
    exact h.reportIf hs _ _
  | .ifStmt _ cond body, w, h, hs => by
    rw [Walk.stmt]
    have hcond := expr cond h (hs.part (by simp [Node.parts]))
    exact block around body (hcond.enter .block) fun s hmem => hs.part (by simp [Node.parts, hmem])
  | .ifElseStmt _ cond body other, w, h, hs => by
    rw [Walk.stmt]
    have hcond := expr cond h (hs.part (by simp [Node.parts]))
    have hbody := block around body (hcond.enter .block) fun s hmem =>
      hs.part (by simp [Node.parts, hmem])
    exact block around other (hbody.exit.enter .block) fun s hmem =>
      hs.part (by simp [Node.parts, hmem])
  | .whileStmt _ cond body, w, h, hs => by
    rw [Walk.stmt]
    have hcond := expr cond h (hs.part (by simp [Node.parts]))
    exact block _ body (hcond.enter .block) fun s hmem => hs.part (by simp [Node.parts, hmem])
  | .exprStmt _ value, w, h, hs => by
    rw [Walk.stmt]
    exact expr value h (hs.part (by simp [Node.parts]))

/-- The faults of a block of a module point into the module. -/
theorem block (around : Surroundings) : ∀ (ss : List Stmt) {w : Walk}, w.PointsInto m →
    (∀ s ∈ ss, m.Has (.statement s)) → (w.block around ss).PointsInto m
  | [], w, h, _ => by
    rw [Walk.block]
    exact h
  | s :: rest, w, h, hss => by
    rw [Walk.block]
    have hfirst := stmt around s h (hss s (List.mem_cons_self ..))
    exact block around rest hfirst fun s hmem => hss s (List.mem_cons_of_mem _ hmem)

end

end PointsInto

end Walk

/-- Every fault of scoping is at a node of the module. -/
theorem Module.has_of_resolve {m : Module} {faults : List LocatedScopeFault}
    (h : m.resolve = .error faults) : ∀ f ∈ faults, ∃ x, m.Has x ∧ x.span = f.span := by
  have hinitial : Walk.initial.PointsInto m := by
    intro f hf
    cases hf
  have hwalk := hinitial.block ⟨0, false⟩ m.body fun s hs => .item hs
  rw [Module.resolve] at h
  split at h
  · cases h
  · cases h
    exact hwalk

/-! ## Refused texts -/

namespace Compile

/-- A text is refused by the first stage that finds a fault. -/
theorem stage_of_ofSource {resolve : Bool} {source : String} {fault : CompileFault}
    (h : ofSource resolve source = .error fault) :
    (∃ d, (Scan.ofString source).fault = some d ∧ fault = .lexical d) ∨
    (Scan.ofString source).fault = none ∧
      ((∃ f, Module.parse (Scan.ofString source).tokens = .error f ∧ fault = .syntactic f) ∨
        ∃ m faults, Module.parse (Scan.ofString source).tokens = .ok m ∧
          m.resolve = .error faults ∧ fault = .semantic faults) := by
  rw [ofSource, check, tree, tokens, Scan.toExcept] at h
  cases hfault : (Scan.ofString source).fault with
  | some d =>
    rw [hfault] at h
    cases h
    exact .inl ⟨d, rfl, rfl⟩
  | none =>
    rw [hfault] at h
    refine .inr ⟨rfl, ?_⟩
    change (((Module.parse (Scan.ofString source).tokens).mapError .syntactic >>= fun m =>
      checkNames resolve m >>= fun _ => pure m) >>= fun m => pure m.generate) = _ at h
    -- There are tokens, so only the two later stages can fail.
    cases hparse : Module.parse (Scan.ofString source).tokens with
    | error f =>
      rw [hparse] at h
      cases h
      exact .inl ⟨f, rfl, rfl⟩
    | ok m =>
      rw [hparse] at h
      refine .inr ⟨m, ?_⟩
      cases resolve with
      -- Without the check of names nothing can fail any more.
      | false => cases h
      | true =>
        change (((m.resolve.mapError CompileFault.semantic).map fun _ => ()) >>= fun _ =>
          pure m) >>= (fun m => pure m.generate) = _ at h
        cases hresolve : m.resolve with
        | ok found =>
          rw [hresolve] at h
          cases h
        | error faults =>
          rw [hresolve] at h
          cases h
          exact ⟨faults, rfl, rfl, rfl⟩

/-- The parser's tokens are those of the scan but comments. -/
theorem tokens_ofTokens {source : String} (hscan : (Scan.ofString source).fault = none) :
    (TokenReader.ofTokens (Scan.ofString source).tokens).tokens =
      (Scan.ofString source).words.toArray := by
  obtain ⟨ts, finish, hwords, -, -⟩ := Scan.exists_words hscan
  show (TokenReader.closed (Scan.ofString source).words).toArray = _
  rw [TokenReader.closed, hwords, List.getLast?_concat]
  rfl

/-- Every diagnostic of a text that is refused covers a stretch of the text. -/
theorem covers_of_ofSource {resolve : Bool} {source : String} {fault : CompileFault}
    (h : ofSource resolve source = .error fault) {d : Diagnostic} (hd : d ∈ fault.diagnostics) :
    ∃ before inside behind, d.span.Covers source before inside behind := by
  rcases stage_of_ofSource h with
    ⟨d', hfault, rfl⟩ | ⟨hscan, ⟨f, hparse, rfl⟩ | ⟨m, faults, hparse, hresolve, rfl⟩⟩
  · rw [List.mem_singleton.mp hd]
    exact Scan.covers_of_fault hfault
  · rw [List.mem_singleton.mp hd]
    obtain ⟨-, t, ht, hspan⟩ := Module.fault_of_parse hparse
    rw [tokens_ofTokens hscan] at ht
    rw [← hspan]
    exact Scan.covers_of_mem_words (List.mem_toArray.mp ht)
  · obtain ⟨f, hf, rfl⟩ := List.mem_map.mp hd
    obtain ⟨x, hx, hspan⟩ := Module.has_of_resolve hresolve f hf
    have hcovers := Module.covers_of_has hscan hparse hx
    rwa [hspan] at hcovers

end Compile

end Scriptlet
