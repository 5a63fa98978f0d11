import Scriptlet.Proofs.Chain
import Scriptlet.Proofs.Fits
import Scriptlet.Scope.Resolve

/-!
# What an accepted module promises

If the walk over a module finds no fault, all functions of the module are defined outside of all
scopes and have different names, every call names a built-in function or a function with that many
parameters, and there is no `return` outside of functions (`Module.resolve_ok`).
-/

namespace Scriptlet

/-! ## What can be called -/

/-- The name and the parameters of a function. -/
def Definition.signature (d : Definition) : String × List String := (d.name, d.params)

/-- What a symbol of a given name can be, if the functions seen so far are given. -/
def SymbolKind.Fits (fns : List (String × List String)) (name : String) : SymbolKind → Prop
  | .variable => True
  | .builtin => (Builtin.ofName? name).isSome = true
  | .function params => (name, params) ∈ fns

/-- A name can be called with a number of arguments. -/
def CanCall (fns : List (String × List String)) (name : String) (args : Nat) : Prop :=
  (Builtin.ofName? name).isSome = true ∨ ∃ params, (name, params) ∈ fns ∧ params.length = args

/-- A statement calls only what can be called, and returns only from functions. -/
def Placed.Accepted (fns : List (String × List String)) (x : Placed) : Prop :=
  (∀ c ∈ x.stmt.calls, CanCall fns c.1 c.2) ∧
    ∀ span value, x.stmt = .returnStmt span value → x.inside = true

/-- What a symbol can be does not change when more functions are seen. -/
theorem SymbolKind.Fits.mono {fns fns' : List (String × List String)} {name : String}
    {kind : SymbolKind} (h : kind.Fits fns name) (hsub : fns ⊆ fns') : kind.Fits fns' name := by
  cases kind with
  | «variable» => trivial
  | builtin => exact h
  | function params => exact hsub h

/-- What can be called can still be called when more functions are seen. -/
theorem CanCall.mono {fns fns' : List (String × List String)} {name : String} {args : Nat}
    (h : CanCall fns name args) (hsub : fns ⊆ fns') : CanCall fns' name args := by
  rcases h with h | ⟨params, hmem, hlen⟩
  · exact .inl h
  · exact .inr ⟨params, hsub hmem, hlen⟩

/-- A statement stays accepted when more functions are seen. -/
theorem Placed.Accepted.mono {fns fns' : List (String × List String)} {x : Placed}
    (h : x.Accepted fns) (hsub : fns ⊆ fns') : x.Accepted fns' :=
  ⟨fun c hc => (h.1 c hc).mono hsub, h.2⟩

/-! ## Tables on the way -/

/-- A symbol table in the middle of a walk that has found no fault so far: the scopes around the
current place are some inner ones and the outermost one, which alone is global and has all functions
seen so far. -/
structure SymbolTable.Scoped (t : SymbolTable) (inner : List Scope) (outer : Scope)
    (fns : List (String × List String)) : Prop where
  wf : t.WF
  chain : t.chain = inner ++ [outer]
  inner_kind : ∀ s ∈ inner, s.kind ≠ .global
  outer_kind : outer.kind = .global
  /-- Every name leads to a symbol that fits it. -/
  named : ∀ s ∈ t.chain, ∀ name id, s.symbols.find? name = some id →
    ∃ symbol, t.symbols[id]? = some symbol ∧ symbol.kind.Fits fns name
  /-- Every function seen so far is declared in the outermost scope. -/
  declared : ∀ f ∈ fns, outer.symbols.find? f.1 ≠ none
  distinct : (fns.map Prod.fst).Nodup

namespace SymbolTable.Scoped

variable {t : SymbolTable} {inner : List Scope} {outer : Scope}
  {fns : List (String × List String)}

/-- The current scope is global exactly if there are no inner ones. -/
theorem currentKind_eq (h : t.Scoped inner outer fns) :
    t.currentKind = .global ↔ inner = [] := by
  rw [t.currentKind_eq, h.chain]
  cases inner with
  | nil => simp [h.outer_kind]
  | cons s rest =>
    simp only [List.cons_append, List.head?_cons, Option.map_some, Option.getD_some,
      List.cons_ne_nil, iff_false]
    exact h.inner_kind s (List.mem_cons_self ..)

/-- A symbol that a name leads to can be called as its kind says. -/
theorem kind_of_lookup (h : t.Scoped inner outer fns) {name : String} {id : Nat}
    (hlookup : t.lookup name = some id) :
    ∃ symbol, t.symbols[id]? = some symbol ∧ symbol.kind.Fits fns name := by
  rw [t.lookup_eq] at hlookup
  obtain ⟨s, hs, hfind⟩ := List.exists_of_findSome?_eq_some hlookup
  exact h.named s hs name id hfind

/-- An inner scope is entered without symbols. -/
theorem enter (h : t.Scoped inner outer fns) {kind : ScopeKind} (hkind : kind ≠ .global) :
    (t.enter kind).Scoped (⟨some t.current, kind, .empty⟩ :: inner) outer fns := by
  have hchain := chain_enter h.wf kind
  refine ⟨h.wf.enter kind, ?_, ?_, h.outer_kind, ?_, h.declared, h.distinct⟩
  · rw [hchain, h.chain, List.cons_append]
  · intro s hs
    rcases List.mem_cons.mp hs with rfl | hs
    · exact hkind
    · exact h.inner_kind s hs
  · intro s hs name id hfind
    rw [hchain] at hs
    rcases List.mem_cons.mp hs with rfl | hs
    · cases hfind
    · exact h.named s hs name id hfind

/-- Leaving an inner scope brings back the scopes around it. -/
theorem exit {s : Scope} (h : t.Scoped (s :: inner) outer fns) :
    t.exit.Scoped inner outer fns := by
  obtain ⟨u, rest, hrest⟩ : ∃ u rest, inner ++ [outer] = u :: rest :=
    List.exists_cons_of_ne_nil (by simp)
  have hchain : t.chain = s :: u :: rest := by rw [h.chain, List.cons_append, hrest]
  obtain ⟨hexit, hwf, hsymbols⟩ := chain_exit h.wf hchain
  refine ⟨hwf, hexit.trans hrest.symm, ?_, h.outer_kind, ?_, h.declared, h.distinct⟩
  · exact fun u hu => h.inner_kind u (List.mem_cons_of_mem _ hu)
  · intro v hv name id hfind
    rw [hsymbols]
    refine h.named v ?_ name id hfind
    rw [hchain]
    rw [hexit] at hv
    exact List.mem_cons_of_mem _ hv

/-- After a declaration, too, every name leads to a symbol that fits it. -/
theorem named_define (h : t.Scoped inner outer fns) {s : Scope} {rest : List Scope}
    (hchain : t.chain = s :: rest) {fns' : List (String × List String)} (hsub : fns ⊆ fns')
    (name : String) (kind : SymbolKind) (hkind : kind.Fits fns' name) (span : Span) :
    ∀ u ∈ (t.define name kind span).chain, ∀ n id, u.symbols.find? n = some id →
      ∃ symbol, (t.define name kind span).symbols[id]? = some symbol ∧ symbol.kind.Fits fns' n := by
  have hold : ∀ u ∈ t.chain, ∀ n id, u.symbols.find? n = some id →
      ∃ symbol, (t.define name kind span).symbols[id]? = some symbol ∧
        symbol.kind.Fits fns' n := by
    intro u hu n id hfind
    obtain ⟨symbol, hsymbol, hfits⟩ := h.named u hu n id hfind
    exact ⟨symbol, Program.getElem?_push_of_eq_some hsymbol, hfits.mono hsub⟩
  intro u hu n id hfind
  rw [chain_define h.wf hchain] at hu
  rcases List.mem_cons.mp hu with rfl | hu
  · simp only [SortedMap.find?_insert] at hfind
    by_cases hn : n = name
    · rw [if_pos hn] at hfind
      cases hfind
      subst hn
      exact ⟨_, Array.getElem?_push_size .., hkind⟩
    · rw [if_neg hn] at hfind
      exact hold s (by rw [hchain]; exact List.mem_cons_self ..) n id hfind
  · exact hold u (by rw [hchain]; exact List.mem_cons_of_mem _ hu) n id hfind

/-- Declaring what fits the functions seen so far, as a variable does. -/
theorem define (h : t.Scoped inner outer fns) {name : String} {kind : SymbolKind}
    (hkind : kind.Fits fns name) (span : Span) :
    ∃ inner' outer', (t.define name kind span).Scoped inner' outer' fns ∧
      inner'.length = inner.length := by
  have hnamed {s : Scope} {rest : List Scope} (hchain : t.chain = s :: rest) :=
    h.named_define hchain (List.Subset.refl _) name kind hkind span
  cases inner with
  | nil =>
    have hchain : t.chain = outer :: [] := h.chain
    refine ⟨[], _, ⟨h.wf.define .., chain_define h.wf hchain .., nofun, h.outer_kind,
      hnamed hchain, fun f hf => ?_, h.distinct⟩, rfl⟩
    rw [SortedMap.find?_insert]
    split
    · nofun
    · exact h.declared f hf
  | cons s rest =>
    have hchain : t.chain = s :: (rest ++ [outer]) := h.chain
    refine ⟨_ :: rest, outer, ⟨h.wf.define .., chain_define h.wf hchain .., ?_, h.outer_kind,
      hnamed hchain, h.declared, h.distinct⟩, rfl⟩
    intro u hu
    rcases List.mem_cons.mp hu with rfl | hu
    · exact h.inner_kind s (List.mem_cons_self ..)
    · exact h.inner_kind u (List.mem_cons_of_mem _ hu)

/-- Declaring a function under a name that the outermost scope does not have. -/
theorem define_function (h : t.Scoped [] outer fns) {name : String} (params : List String)
    (span : Span) (hnew : outer.symbols.find? name = none) :
    ∃ outer', (t.define name (.function params) span).Scoped [] outer'
      (fns ++ [(name, params)]) := by
  have hchain : t.chain = outer :: [] := h.chain
  have hlast : (name, params) ∈ fns ++ [(name, params)] :=
    List.mem_append_right _ (List.mem_singleton.mpr rfl)
  have hnamed :=
    h.named_define hchain (List.subset_append_left ..) name (.function params) hlast span
  refine ⟨_, h.wf.define .., chain_define h.wf hchain .., nofun, h.outer_kind, hnamed,
    fun f hf => ?_, ?_⟩
  · rw [SortedMap.find?_insert]
    split
    · nofun
    · next hne =>
      rcases List.mem_append.mp hf with hf | hf
      · exact h.declared f hf
      · rw [List.mem_singleton.mp hf] at hne
        exact absurd rfl hne
  · rw [List.map_append, List.nodup_append]
    refine ⟨h.distinct, by simp, fun f hf g hg heq => ?_⟩
    obtain ⟨⟨n, ps⟩, hmem, rfl⟩ := List.mem_map.mp hf
    rw [List.map_singleton, List.mem_singleton] at hg
    have hn : n = name := heq.trans hg
    rw [← hn] at hnew
    exact h.declared _ hmem hnew

/-- Declaring built-in functions. -/
theorem define_builtins (span : Span) : ∀ (names : List String) {t : SymbolTable} {outer : Scope},
    (∀ name ∈ names, (Builtin.ofName? name).isSome = true) → t.Scoped [] outer fns →
      ∃ outer', (names.foldl (fun t name => t.define name .builtin span) t).Scoped [] outer' fns
  | [], _, outer, _, h => ⟨outer, h⟩
  | name :: names, t, outer, hnames, h => by
    have hname : SymbolKind.builtin.Fits fns name := hnames name (List.mem_cons_self ..)
    obtain ⟨inner', outer', h', hlen⟩ := h.define hname span
    rw [List.length_eq_zero_iff.mp hlen] at h'
    exact define_builtins span names (fun n hn => hnames n (List.mem_cons_of_mem _ hn)) h'

/-- A table that nothing was done to is at the outermost scope and has seen no function. -/
theorem blank : SymbolTable.blank.Scoped [] ⟨none, .global, .empty⟩ [] := by
  refine ⟨.blank, chain_blank, nofun, rfl, ?_, nofun, List.nodup_nil⟩
  intro s hs name id hfind
  rw [chain_blank, List.mem_singleton] at hs
  rw [hs] at hfind
  cases hfind

/-- The built-in functions are no functions of the module. -/
theorem initial : ∃ outer, SymbolTable.initial.Scoped [] outer [] :=
  define_builtins .zero Builtin.names (by decide) blank

end SymbolTable.Scoped

/-! ## Steps of the walk -/

namespace Walk

variable {w : Walk} {inner : List Scope} {outer : Scope} {fns : List (String × List String)}

/-- A report is a fault. -/
theorem faults_report_ne_nil (fault : ScopeFault) (span : Span) :
    (w.report fault span).faults ≠ [] := by
  rw [report]
  exact List.append_ne_nil_of_right_ne_nil _ (List.cons_ne_nil _ _)

/-- Nothing was reported under a condition. -/
theorem of_reportIf {condition : Bool} {fault : ScopeFault} {span : Span}
    (h : (w.reportIf condition fault span).faults = []) :
    condition = false ∧ w.reportIf condition fault span = w := by
  cases condition with
  | true => exact absurd h (faults_report_ne_nil fault span)
  | false => exact ⟨rfl, rfl⟩

/-- A name was declared without a fault. -/
theorem of_declare {name : String} {kind : SymbolKind} {span : Span} {fault : ScopeFault}
    (h : (w.declare name kind span fault).faults = []) :
    w.faults = [] ∧ w.table.lookupLocal name = none ∧
      (w.declare name kind span fault).table = w.table.define name kind span := by
  unfold declare at h ⊢
  cases hlocal : w.table.lookupLocal name with
  | some id =>
    rw [hlocal] at h
    exact absurd h (faults_report_ne_nil fault span)
  | none =>
    rw [hlocal] at h
    exact ⟨h, rfl, rfl⟩

/-- Declaring a variable keeps what is known of the table. -/
theorem scoped_declare (hs : w.table.Scoped inner outer fns) {name : String} {span : Span}
    {fault : ScopeFault} (h : (w.declare name .variable span fault).faults = []) :
    w.faults = [] ∧ ∃ inner' outer',
      (w.declare name .variable span fault).table.Scoped inner' outer' fns ∧
        inner'.length = inner.length := by
  obtain ⟨hw, -, htable⟩ := of_declare h
  have hkind : SymbolKind.variable.Fits fns name := trivial
  rw [htable]
  exact ⟨hw, hs.define hkind span⟩

/-- Using a variable defines nothing. -/
theorem table_useVariable (node : Nat) (name : String) (span : Span) :
    (w.useVariable node name span).table = w.table := by
  unfold useVariable
  split <;> rfl

/-- Faults are only added, so there were none before the use of a variable if there are none behind
it. -/
theorem faults_of_useVariable {node : Nat} {name : String} {span : Span}
    (h : (w.useVariable node name span).faults = []) : w.faults = [] := by
  unfold useVariable at h
  split at h
  · exact h
  · exact absurd h (faults_report_ne_nil _ _)

/-- Calling a function defines nothing. -/
theorem table_useFunction (node : Nat) (name : String) (args : Nat) (span : Span) :
    (w.useFunction node name args span).table = w.table := by
  unfold useFunction
  split
  · rfl
  · split
    · split <;> rfl
    · rfl
    · rfl

/-- A call that is no fault can be made. -/
theorem canCall_of_useFunction (hs : w.table.Scoped inner outer fns) {node : Nat} {name : String}
    {args : Nat} {span : Span} (h : (w.useFunction node name args span).faults = []) :
    CanCall fns name args := by
  unfold useFunction at h
  split at h
  · exact absurd h (faults_report_ne_nil _ _)
  · next id hlookup =>
    obtain ⟨symbol, hsymbol, hfits⟩ := hs.kind_of_lookup hlookup
    rw [hsymbol, Option.map_some] at h
    split at h
    · next params hkind =>
      rw [Option.some.inj hkind] at hfits
      split at h
      · next hlen => exact .inr ⟨params, hfits, hlen⟩
      · exact absurd h (faults_report_ne_nil _ _)
    · next hkind =>
      rw [Option.some.inj hkind] at hfits
      exact .inl hfits
    · exact absurd h (faults_report_ne_nil _ _)

/-- There were no faults before a call if there are none behind it. -/
theorem faults_of_useFunction {node : Nat} {name : String} {args : Nat} {span : Span}
    (h : (w.useFunction node name args span).faults = []) : w.faults = [] := by
  unfold useFunction at h
  split at h
  · exact absurd h (faults_report_ne_nil _ _)
  · split at h
    · split at h
      · exact h
      · exact absurd h (faults_report_ne_nil _ _)
    · exact h
    · exact absurd h (faults_report_ne_nil _ _)

theorem faults_of_reportIf {condition : Bool} {fault : ScopeFault} {span : Span}
    (h : (w.reportIf condition fault span).faults = []) : w.faults = [] := by
  rwa [(of_reportIf h).2] at h

/-- There were no faults before the parameters of a function if there are none behind them. -/
theorem faults_of_parameters (function : String) (span : Span) :
    ∀ (params : List String) {w : Walk},
      (w.parameters function params span).faults = [] → w.faults = []
  | [], _, h => h
  | _ :: params, _, h => (of_declare (faults_of_parameters function span params h)).1

/-! ## Faults stay -/

mutual

/-- A walk over an expression without faults started without faults. -/
theorem faults_of_expr : ∀ (e : Expr) {w : Walk}, (w.expr e).faults = [] → w.faults = []
  | .literal _ _, w, h => by rwa [expr] at h
  | .name _ _ _, w, h => by
    rw [expr] at h
    exact faults_of_useVariable h
  | .binary _ _ left right, w, h => by
    rw [expr] at h
    exact faults_of_expr left (faults_of_expr right h)
  | .not _ operand, w, h => by
    rw [expr] at h
    exact faults_of_expr operand h
  | .call _ _ _ args, w, h => by
    rw [expr] at h
    exact faults_of_exprs args (faults_of_useFunction h)

/-- There were no faults before some expressions if there are none behind them. -/
theorem faults_of_exprs : ∀ (es : List Expr) {w : Walk}, (w.exprs es).faults = [] → w.faults = []
  | [], w, h => by rwa [exprs] at h
  | e :: rest, w, h => by
    rw [exprs] at h
    exact faults_of_expr e (faults_of_exprs rest h)

end

/-- The same for a value that may be missing. -/
theorem faults_of_expr? (e : Option Expr) (h : (w.expr? e).faults = []) : w.faults = [] := by
  cases e with
  | none => exact h
  | some e => exact faults_of_expr e h

mutual

/-- A walk over a statement without faults started without faults. -/
theorem faults_of_stmt (around : Surroundings) :
    ∀ (s : Stmt) {w : Walk}, (w.stmt around s).faults = [] → w.faults = []
  | .letStmt _ _ value, w, h => by
    rw [stmt] at h
    exact faults_of_expr? value (of_declare h).1
  | .fnStmt span name params body, w, h => by
    rw [stmt] at h
    have hparams := faults_of_block ⟨0, true⟩ body h
    have hdeclare := faults_of_parameters name span params hparams
    exact faults_of_reportIf (of_declare hdeclare).1
  | .returnStmt _ value, w, h => by
    rw [stmt] at h
    exact faults_of_reportIf (faults_of_expr? value h)
  | .breakStmt _, w, h => by
    rw [stmt] at h
    exact faults_of_reportIf h
  | .continueStmt _, w, h => by
    rw [stmt] at h
    exact faults_of_reportIf h
  | .ifStmt _ cond body, w, h => by
    rw [stmt] at h
    have hcond := faults_of_block around body h
    exact faults_of_expr cond hcond
  | .ifElseStmt _ cond body other, w, h => by
    rw [stmt] at h
    have hthen := faults_of_block around other h
    have hcond := faults_of_block around body hthen
    exact faults_of_expr cond hcond
  | .whileStmt _ cond body, w, h => by
    rw [stmt] at h
    have hcond := faults_of_block _ body h
    exact faults_of_expr cond hcond
  | .exprStmt _ value, w, h => by
    rw [stmt] at h
    exact faults_of_expr value h

/-- There were no faults before a block if there are none behind it. -/
theorem faults_of_block (around : Surroundings) :
    ∀ (ss : List Stmt) {w : Walk}, (w.block around ss).faults = [] → w.faults = []
  | [], w, h => by rwa [block] at h
  | s :: rest, w, h => by
    rw [block] at h
    exact faults_of_stmt around s (faults_of_block around rest h)

end

/-! ## Expressions -/

mutual

/-- An expression defines nothing. -/
theorem table_expr : ∀ (e : Expr) (w : Walk), (w.expr e).table = w.table
  | .literal _ _, w => by rw [expr]
  | .name _ _ _, w => by rw [expr, table_useVariable]
  | .binary _ _ left right, w => by rw [expr, table_expr right, table_expr left]
  | .not _ operand, w => by rw [expr, table_expr operand]
  | .call _ _ _ args, w => by rw [expr, table_useFunction, table_exprs args]

theorem table_exprs : ∀ (es : List Expr) (w : Walk), (w.exprs es).table = w.table
  | [], w => by rw [exprs]
  | e :: rest, w => by rw [exprs, table_exprs rest, table_expr e]

end

mutual

/-- All calls of an expression without faults can be made. -/
theorem calls_of_expr : ∀ (e : Expr) {w : Walk}, w.table.Scoped inner outer fns →
    (w.expr e).faults = [] → ∀ c ∈ e.calls, CanCall fns c.1 c.2
  | .literal _ _, w, _, _, c, hc => by
    rw [Expr.calls] at hc
    cases hc
  | .name _ _ _, w, _, _, c, hc => by
    rw [Expr.calls] at hc
    cases hc
  | .binary _ _ left right, w, hs, h, c, hc => by
    rw [expr] at h
    rw [Expr.calls] at hc
    rcases List.mem_append.mp hc with hc | hc
    · exact calls_of_expr left hs (faults_of_expr right h) c hc
    · exact calls_of_expr right (by rwa [table_expr]) h c hc
  | .not _ operand, w, hs, h, c, hc => by
    rw [expr] at h
    rw [Expr.calls] at hc
    exact calls_of_expr operand hs h c hc
  | .call _ _ _ args, w, hs, h, c, hc => by
    rw [expr] at h
    have hargs : (w.exprs args).table.Scoped inner outer fns := by rwa [table_exprs]
    rw [Expr.calls] at hc
    rcases List.mem_append.mp hc with hc | hc
    · exact calls_of_exprs args hs (faults_of_useFunction h) c hc
    · rw [List.mem_singleton.mp hc]
      exact canCall_of_useFunction hargs h

/-- Expressions without faults call only what can be called. -/
theorem calls_of_exprs : ∀ (es : List Expr) {w : Walk}, w.table.Scoped inner outer fns →
    (w.exprs es).faults = [] → ∀ c ∈ Expr.callsIn es, CanCall fns c.1 c.2
  | [], w, _, _, c, hc => by
    rw [Expr.callsIn] at hc
    cases hc
  | e :: rest, w, hs, h, c, hc => by
    rw [exprs] at h
    rw [Expr.callsIn] at hc
    rcases List.mem_append.mp hc with hc | hc
    · exact calls_of_expr e hs (faults_of_exprs rest h) c hc
    · exact calls_of_exprs rest (by rwa [table_expr]) h c hc

end

/-! ## Statements -/

/-- Declaring parameters keeps what is known of the table. -/
theorem scoped_parameters (function : String) (span : Span) :
    ∀ (params : List String) {w : Walk} {inner : List Scope} {outer : Scope},
      w.table.Scoped inner outer fns → (w.parameters function params span).faults = [] →
      ∃ inner' outer', (w.parameters function params span).table.Scoped inner' outer' fns ∧
        inner'.length = inner.length
  | [], _, inner, outer, hs, _ => ⟨inner, outer, hs, rfl⟩
  | param :: params, w, inner, outer, hs, h => by
    obtain ⟨inner₁, outer₁, hs₁, hlen₁⟩ :=
      (scoped_declare hs (faults_of_parameters function span params h)).2
    obtain ⟨inner₂, outer₂, hs₂, hlen₂⟩ := scoped_parameters function span params hs₁ h
    exact ⟨inner₂, outer₂, hs₂, hlen₂.trans hlen₁⟩

/-- A walk has passed some statements without a fault, from a place with given inner scopes and
functions: it is as many scopes deep as before, functions were only defined outside of all inner
scopes, and all statements are accepted. -/
structure Passed (w : Walk) (inner : List Scope) (fns : List (String × List String))
    (defs : List Definition) (placed : List Placed) : Prop where
  scopes : ∃ inner' outer', inner'.length = inner.length ∧
    w.table.Scoped inner' outer' (fns ++ defs.map Definition.signature)
  outermost : inner ≠ [] → defs = []
  accepted : ∀ x ∈ placed, x.Accepted (fns ++ defs.map Definition.signature)

/-- A statement without functions in it was passed. -/
theorem Passed.of_scoped {inner' : List Scope} {outer' : Scope} {s : Stmt} {inside : Bool}
    {a : Nat} (hlen : inner'.length = inner.length) (hs : w.table.Scoped inner' outer' fns)
    (hcalls : ∀ c ∈ s.calls, CanCall fns c.1 c.2)
    (hreturn : ∀ span value, s = .returnStmt span value → inside = true) :
    w.Passed inner fns [] [⟨s, inside, a⟩] := by
  refine ⟨⟨inner', outer', hlen, ?_⟩, fun _ => rfl, fun x hx => ?_⟩
  · rwa [List.map_nil, List.append_nil]
  · rw [List.mem_singleton.mp hx, List.map_nil, List.append_nil]
    exact ⟨hcalls, hreturn⟩

/-- Passing a block in a scope of its own leaves the scopes as they were. -/
theorem Passed.exit {s : Scope} {defs : List Definition} {placed : List Placed}
    (h : w.Passed (s :: inner) fns defs placed) :
    defs = [] ∧ (∃ inner' outer', inner'.length = inner.length ∧
      w.exit.table.Scoped inner' outer' fns) ∧ ∀ x ∈ placed, x.Accepted fns := by
  obtain ⟨⟨inner', outer', hlen, hs⟩, hnone, haccepted⟩ := h
  obtain rfl := hnone (List.cons_ne_nil _ _)
  rw [List.map_nil, List.append_nil] at hs haccepted
  cases inner' with
  | nil => cases hlen
  | cons u rest => exact ⟨rfl, ⟨rest, outer', Nat.succ.inj hlen, hs.exit⟩, haccepted⟩

/-- A walk that enters an inner scope has seen no further function. -/
theorem scoped_enter (kind : ScopeKind) (hkind : kind ≠ .global)
    (hs : w.table.Scoped inner outer fns) :
    (w.enter kind).table.Scoped (⟨some w.table.current, kind, .empty⟩ :: inner) outer fns :=
  hs.enter hkind

/-- The statement around a block that was passed. -/
theorem Passed.around {inner' : List Scope} {outer' : Scope} {s : Stmt} {inside : Bool} {a : Nat}
    {placed : List Placed} (hlen : inner'.length = inner.length)
    (hs : w.table.Scoped inner' outer' fns) (hcalls : ∀ c ∈ s.calls, CanCall fns c.1 c.2)
    (hreturn : ∀ span value, s ≠ .returnStmt span value)
    (hinner : ∀ x ∈ placed, x.Accepted fns) :
    w.Passed inner fns [] (⟨s, inside, a⟩ :: placed) := by
  have hown : w.Passed inner fns [] [⟨s, inside, a⟩] :=
    .of_scoped hlen hs hcalls fun span value h => absurd h (hreturn span value)
  refine ⟨hown.scopes, hown.outermost, fun x hx => ?_⟩
  rcases List.mem_cons.mp hx with rfl | hx
  · exact hown.accepted _ (List.mem_singleton.mpr rfl)
  · rw [List.map_nil, List.append_nil]
    exact hinner x hx

/-- A function without faults is defined outside of all inner scopes, and the walk over its body
starts in one scope that knows it. -/
theorem scoped_body {around : Surroundings} {span : Span} {name : String} {params : List String}
    {body : List Stmt} (hs : w.table.Scoped inner outer fns)
    (h : (w.stmt around (.fnStmt span name params body)).faults = []) :
    inner = [] ∧ ∃ (w' : Walk) (s outer' : Scope),
      w'.table.Scoped [s] outer' (fns ++ [(name, params)]) ∧
      (w'.block ⟨0, true⟩ body).faults = [] ∧
      w.stmt around (.fnStmt span name params body) = (w'.block ⟨0, true⟩ body).exit := by
  rw [stmt] at h ⊢
  have hparams := faults_of_block ⟨0, true⟩ body h
  have hdeclare := faults_of_parameters name span params hparams
  obtain ⟨hreport, hnew, htable⟩ := of_declare hdeclare
  obtain ⟨hglobal, heq⟩ := of_reportIf hreport
  obtain rfl : inner = [] := hs.currentKind_eq.mp (by simpa using hglobal)
  rw [heq] at hnew htable hparams h ⊢
  rw [w.table.lookupLocal_eq, hs.chain] at hnew
  obtain ⟨outer₁, hs₁⟩ := hs.define_function params span hnew
  rw [← htable] at hs₁
  obtain ⟨inner₂, outer₂, hs₂, hlen₂⟩ := scoped_parameters name span params
    (scoped_enter .function nofun hs₁) hparams
  obtain ⟨u, rfl⟩ := List.length_eq_one_iff.mp hlen₂
  exact ⟨rfl, _, u, outer₂, hs₂, h, rfl⟩

mutual

/-- A walk passes every statement that it finds no fault in. -/
theorem passed_stmt (around : Surroundings) : ∀ (s : Stmt) (a : Nat) {w : Walk}
    {inner : List Scope} {outer : Scope} {fns : List (String × List String)},
    w.table.Scoped inner outer fns → (w.stmt around s).faults = [] →
      (w.stmt around s).Passed inner fns s.definitions
        (⟨s, around.inFunction, a⟩ :: s.inner around.inFunction a)
  | .letStmt span name value, a, w, inner, outer, fns, hs, h => by
    rw [stmt] at h ⊢
    rw [Stmt.definitions, Stmt.inner]
    have hvalue := (of_declare h).1
    have hs₁ : (w.expr? value).table.Scoped inner outer fns := by
      cases value with
      | none => exact hs
      | some e => rwa [expr?, table_expr]
    obtain ⟨-, inner', outer', hs', hlen⟩ := scoped_declare hs₁ h
    refine .of_scoped hlen hs' ?_ nofun
    cases value with
    | none => nofun
    | some e => exact calls_of_expr e hs hvalue
  | .fnStmt span name params body, a, w, inner, outer, fns, hs, h => by
    obtain ⟨rfl, w', u, outer', hs', h', heq⟩ := scoped_body hs h
    -- the body is in one inner scope, so it defines no functions
    have hbody := passed_block ⟨0, true⟩ body (a + 1) hs' h'
    obtain ⟨hnone, ⟨inner₃, outer₃, hlen₃, hs₃⟩, haccepted⟩ := hbody.exit
    rw [heq, Stmt.definitions, hnone, Stmt.inner]
    refine ⟨⟨inner₃, outer₃, hlen₃, hs₃⟩, fun h => absurd rfl h, ?_⟩
    intro x hx
    rcases List.mem_cons.mp hx with rfl | hx
    · exact ⟨nofun, nofun⟩
    · exact haccepted x hx
  | .returnStmt span value, a, w, inner, outer, fns, hs, h => by
    rw [stmt] at h ⊢
    rw [Stmt.definitions, Stmt.inner]
    obtain ⟨hin, heq⟩ := of_reportIf (faults_of_expr? value h)
    rw [heq] at h ⊢
    cases value with
    | none => exact .of_scoped rfl hs nofun fun _ _ _ => by simpa using hin
    | some e =>
      rw [expr?] at h ⊢
      refine .of_scoped rfl (by rwa [table_expr]) (calls_of_expr e hs h) fun _ _ _ => ?_
      simpa using hin
  | .breakStmt span, a, w, inner, outer, fns, hs, h => by
    rw [stmt] at h ⊢
    rw [Stmt.definitions, Stmt.inner, (of_reportIf h).2]
    exact .of_scoped rfl hs nofun nofun
  | .continueStmt span, a, w, inner, outer, fns, hs, h => by
    rw [stmt] at h ⊢
    rw [Stmt.definitions, Stmt.inner, (of_reportIf h).2]
    exact .of_scoped rfl hs nofun nofun
  | .ifStmt span cond body, a, w, inner, outer, fns, hs, h => by
    rw [stmt] at h ⊢
    have hcond := faults_of_block around body h
    have hs₁ : (w.expr cond).table.Scoped inner outer fns := by rwa [table_expr]
    have hbody := passed_block around body (a + cond.width + 1) (scoped_enter .block nofun hs₁) h
    obtain ⟨hnone, ⟨inner', outer', hlen, hs'⟩, haccepted⟩ := hbody.exit
    rw [Stmt.definitions, hnone, Stmt.inner]
    exact .around hlen hs' (calls_of_expr cond hs hcond) nofun haccepted
  | .ifElseStmt span cond body other, a, w, inner, outer, fns, hs, h => by
    rw [stmt] at h ⊢
    have hthen := faults_of_block around other h
    have hcond := faults_of_block around body hthen
    have hs₁ : (w.expr cond).table.Scoped inner outer fns := by rwa [table_expr]
    have hbody :=
      passed_block around body (a + cond.width + 1) (scoped_enter .block nofun hs₁) hthen
    obtain ⟨hnone, ⟨inner₂, outer₂, hlen₂, hs₂⟩, haccepted⟩ := hbody.exit
    have hother := passed_block around other (a + cond.width + 1 + Stmt.widths body + 1)
      (scoped_enter .block nofun hs₂) h
    obtain ⟨hnone', ⟨inner₃, outer₃, hlen₃, hs₃⟩, haccepted'⟩ := hother.exit
    rw [Stmt.definitions, hnone, hnone', Stmt.inner]
    refine .around (hlen₃.trans hlen₂) hs₃ (calls_of_expr cond hs hcond) nofun fun x hx => ?_
    rcases List.mem_append.mp hx with hx | hx
    · exact haccepted x hx
    · exact haccepted' x hx
  | .whileStmt span cond body, a, w, inner, outer, fns, hs, h => by
    rw [stmt] at h ⊢
    have hcond := faults_of_block _ body h
    have hs₁ : (w.expr cond).table.Scoped inner outer fns := by rwa [table_expr]
    have hbody := passed_block _ body (a + cond.width + 1) (scoped_enter .block nofun hs₁) h
    obtain ⟨hnone, ⟨inner', outer', hlen, hs'⟩, haccepted⟩ := hbody.exit
    rw [Stmt.definitions, hnone, Stmt.inner]
    exact .around hlen hs' (calls_of_expr cond hs hcond) nofun haccepted
  | .exprStmt span value, a, w, inner, outer, fns, hs, h => by
    rw [stmt] at h ⊢
    rw [Stmt.definitions, Stmt.inner]
    exact .of_scoped rfl (by rwa [table_expr]) (calls_of_expr value hs h) nofun

/-- A walk passes every block that it finds no fault in. -/
theorem passed_block (around : Surroundings) : ∀ (ss : List Stmt) (a : Nat) {w : Walk}
    {inner : List Scope} {outer : Scope} {fns : List (String × List String)},
    w.table.Scoped inner outer fns → (w.block around ss).faults = [] →
      (w.block around ss).Passed inner fns (Stmt.definitionsIn ss)
        (Stmt.placed around.inFunction ss a)
  | [], a, w, inner, outer, fns, hs, h => by
    rw [block, Stmt.definitionsIn, Stmt.placed]
    exact ⟨⟨inner, outer, rfl, by rwa [List.map_nil, List.append_nil]⟩, fun _ => rfl, nofun⟩
  | s :: rest, a, w, inner, outer, fns, hs, h => by
    rw [block] at h ⊢
    rw [Stmt.definitionsIn, Stmt.placed]
    have hfirst := passed_stmt around s a hs (faults_of_block around rest h)
    obtain ⟨inner', outer', hlen, hs'⟩ := hfirst.scopes
    have hrest := passed_block around rest (a + s.width) hs' h
    have hmap : fns ++ (s.definitions ++ Stmt.definitionsIn rest).map Definition.signature =
        fns ++ s.definitions.map Definition.signature ++
          (Stmt.definitionsIn rest).map Definition.signature := by
      rw [List.map_append, List.append_assoc]
    constructor
    · obtain ⟨inner₂, outer₂, hlen₂, hs₂⟩ := hrest.scopes
      rw [hmap]
      exact ⟨inner₂, outer₂, hlen₂.trans hlen, hs₂⟩
    · intro hinner
      have hinner' : inner' ≠ [] := by
        rintro rfl
        exact hinner (List.eq_nil_of_length_eq_zero hlen.symm)
      rw [hfirst.outermost hinner, hrest.outermost hinner', List.append_nil]
    · intro x hx
      rw [hmap]
      rcases List.mem_append.mp hx with hx | hx
      · exact (hfirst.accepted x hx).mono (List.subset_append_left ..)
      · exact hrest.accepted x hx

end

end Walk

/-! ## Modules -/

/-- The walk over a module that is accepted finds no fault. -/
theorem Module.walk_faults_of_resolve {m : Module} {found : Resolution}
    (h : m.resolve = .ok found) :
    (Walk.initial.block ⟨0, false⟩ m.body).faults = [] := by
  rw [Module.resolve] at h
  by_cases hempty : (Walk.initial.block ⟨0, false⟩ m.body).faults.isEmpty = true
  · exact List.isEmpty_iff.mp hempty
  · rw [if_neg hempty] at h
    cases h

/-- In a module that is accepted, functions have different names and all statements are accepted. -/
theorem Module.resolve_ok {m : Module} {found : Resolution} (h : m.resolve = .ok found) :
    ((Stmt.definitionsIn m.body).map Definition.name).Nodup ∧
      ∀ x ∈ m.placed, x.Accepted ((Stmt.definitionsIn m.body).map Definition.signature) := by
  have hfaults := walk_faults_of_resolve h
  obtain ⟨outer, hs⟩ : ∃ outer, Walk.initial.table.Scoped [] outer [] :=
    SymbolTable.Scoped.initial
  have hpassed := Walk.passed_block ⟨0, false⟩ m.body 0 hs hfaults
  rw [Module.placed]
  refine ⟨?_, hpassed.accepted⟩
  obtain ⟨inner', outer', -, hs'⟩ := hpassed.scopes
  have hdistinct := hs'.distinct
  rwa [List.nil_append, List.map_map] at hdistinct

end Scriptlet
