import Scriptlet.Proofs.Accepted
import Scriptlet.Proofs.Environment

/-!
# The symbols of a module

The declarations of a module are numbered in the order of its text: a function comes before its
parameters, and these before what its body declares.  The symbol table of an accepted module has
exactly these symbols in this order, and its scopes tell which of them belong to a function
(`Module.declared_of_resolve`).
-/

namespace Scriptlet

/-! ## Declarations in the order of the text -/

/-- A declaration, and whether it stands in a function. -/
structure Declared extends Declaration where
  inside : Bool
  deriving Repr, DecidableEq

mutual

/-- How many declarations there are in a statement. -/
def Stmt.declared : Stmt → Nat
  | .letStmt _ _ _ => 1
  | .fnStmt _ _ params body => 1 + params.length + Stmt.declaredIn body
  | .ifStmt _ _ body => Stmt.declaredIn body
  | .ifElseStmt _ _ body other => Stmt.declaredIn body + Stmt.declaredIn other
  | .whileStmt _ _ body => Stmt.declaredIn body
  | .returnStmt _ _ | .breakStmt _ | .continueStmt _ | .exprStmt _ _ => 0

/-- How many declarations there are in some statements. -/
def Stmt.declaredIn : List Stmt → Nat
  | [] => 0
  | s :: rest => s.declared + Stmt.declaredIn rest

end

/-- The parameters of a function as declarations with the numbers from `n` on. -/
def Declared.parameters (span : Span) (n : Nat) : List String → List Declared
  | [] => []
  | p :: rest => ⟨⟨n, p, .variable, span⟩, true⟩ :: parameters span (n + 1) rest

mutual

/-- The declarations in a statement with the numbers from `n` on. -/
def Stmt.declarations (inside : Bool) (n : Nat) : Stmt → List Declared
  | .letStmt span name _ => [⟨⟨n, name, .variable, span⟩, inside⟩]
  | .fnStmt span name params body =>
    ⟨⟨n, name, .function params, span⟩, inside⟩ :: (Declared.parameters span (n + 1) params ++
      Stmt.declarationsIn true (n + 1 + params.length) body)
  | .ifStmt _ _ body => Stmt.declarationsIn inside n body
  | .ifElseStmt _ _ body other =>
    Stmt.declarationsIn inside n body ++
      Stmt.declarationsIn inside (n + Stmt.declaredIn body) other
  | .whileStmt _ _ body => Stmt.declarationsIn inside n body
  | .returnStmt _ _ | .breakStmt _ | .continueStmt _ | .exprStmt _ _ => []

/-- The declarations in some statements with the numbers from `n` on. -/
def Stmt.declarationsIn (inside : Bool) (n : Nat) : List Stmt → List Declared
  | [] => []
  | s :: rest => s.declarations inside n ++ Stmt.declarationsIn inside (n + s.declared) rest

end

/-- The built-in functions as declarations. -/
def Builtin.declarations : List Declared :=
  Builtin.names.zipIdx.map fun (name, k) => ⟨⟨k, name, .builtin, .zero⟩, false⟩

/-- The declarations of a module, with the built-in functions in front. -/
def Module.declarations (m : Module) : List Declared :=
  Builtin.declarations ++ Stmt.declarationsIn false Builtin.names.length m.body

/-! ## Numbers -/

/-- Parameters are numbered in their order. -/
theorem Declared.map_number_parameters (span : Span) : ∀ (params : List String) (n : Nat),
    (parameters span n params).map (·.number) = List.range' n params.length
  | [], n => rfl
  | p :: rest, n => by
    rw [parameters, List.map_cons, map_number_parameters span rest, List.length_cons,
      List.range'_succ]

mutual

/-- The numbers of declarations follow on each other. -/
theorem Stmt.map_number_declarations : ∀ (s : Stmt) (inside : Bool) (n : Nat),
    (s.declarations inside n).map (·.number) = List.range' n s.declared
  | .letStmt _ _ _, inside, n => by
    rw [declarations, declared]
    rfl
  | .fnStmt span _ params body, inside, n => by
    rw [declarations, declared, List.map_cons, List.map_append,
      Declared.map_number_parameters span params, Stmt.map_number_declarationsIn body,
      List.range'_append_1, Nat.add_assoc 1, Nat.add_comm 1, List.range'_succ]
  | .ifStmt _ _ body, inside, n => by
    rw [declarations, declared, Stmt.map_number_declarationsIn body]
  | .ifElseStmt _ _ body other, inside, n => by
    rw [declarations, declared, List.map_append, Stmt.map_number_declarationsIn body,
      Stmt.map_number_declarationsIn other, List.range'_append_1]
  | .whileStmt _ _ body, inside, n => by
    rw [declarations, declared, Stmt.map_number_declarationsIn body]
  | .returnStmt _ _, inside, n => by
    rw [declarations, declared]
    rfl
  | .breakStmt _, inside, n => by
    rw [declarations, declared]
    rfl
  | .continueStmt _, inside, n => by
    rw [declarations, declared]
    rfl
  | .exprStmt _ _, inside, n => by
    rw [declarations, declared]
    rfl

/-- The declarations of a block are numbered in the order of the text, without a gap. -/
theorem Stmt.map_number_declarationsIn : ∀ (ss : List Stmt) (inside : Bool) (n : Nat),
    (Stmt.declarationsIn inside n ss).map (·.number) = List.range' n (Stmt.declaredIn ss)
  | [], inside, n => by
    rw [declarationsIn, declaredIn]
    rfl
  | s :: rest, inside, n => by
    rw [declarationsIn, declaredIn, List.map_append, Stmt.map_number_declarations s,
      Stmt.map_number_declarationsIn rest, List.range'_append_1]

end

/-- The declarations of a statement are as many as are counted. -/
theorem Stmt.length_declarations (s : Stmt) (inside : Bool) (n : Nat) :
    (s.declarations inside n).length = s.declared := by
  have hnumbers := congrArg List.length (s.map_number_declarations inside n)
  rwa [List.length_map, List.length_range'] at hnumbers

/-- The declarations of a block are as many as are counted. -/
theorem Stmt.length_declarationsIn (ss : List Stmt) (inside : Bool) (n : Nat) :
    (Stmt.declarationsIn inside n ss).length = Stmt.declaredIn ss := by
  have hnumbers := congrArg List.length (Stmt.map_number_declarationsIn ss inside n)
  rwa [List.length_map, List.length_range'] at hnumbers

/-- Every parameter is a declaration. -/
theorem Declared.length_parameters (span : Span) (params : List String) (n : Nat) :
    (parameters span n params).length = params.length := by
  have hnumbers := congrArg List.length (map_number_parameters span params n)
  rwa [List.length_map, List.length_range'] at hnumbers

/-- No two declarations of a module have the same number. -/
theorem Module.nodup_numbers (m : Module) : (m.declarations.map (·.number)).Nodup := by
  have hbuiltins : Builtin.declarations.map (·.number) = List.range' 0 Builtin.names.length := rfl
  rw [declarations, List.map_append, hbuiltins, Stmt.map_number_declarationsIn]
  have happend := @List.range'_append_1 0 Builtin.names.length (Stmt.declaredIn m.body)
  rw [Nat.zero_add] at happend
  rw [happend]
  exact List.nodup_range'

/-! ## The symbols of a table -/

namespace SymbolTable

/-- A scope lies in a function. -/
def inFunction (t : SymbolTable) (scope : Nat) : Bool :=
  (t.chainFrom scope).any fun s => s.kind == .function

/-- The symbols of a table as declarations. -/
def declared (t : SymbolTable) : List Declared :=
  t.symbols.toList.zipIdx.map fun (s, k) =>
    ⟨⟨k, s.name, s.kind, s.span⟩, t.inFunction s.scope⟩

/-- The table is well formed, and every symbol is in a scope that is there. -/
structure Kept (t : SymbolTable) : Prop where
  wf : t.WF
  scope_lt : ∀ s ∈ t.symbols.toList, s.scope < t.scopes.size

variable {t t' : SymbolTable}

theorem length_declared (t : SymbolTable) : t.declared.length = t.symbols.size := by
  rw [declared, List.length_map, List.length_zipIdx, Array.length_toList]

/-- A declaration of a table is the symbol with its number. -/
theorem mem_declared {e : Declared} (h : e ∈ t.declared) :
    ∃ scope, t.symbols[e.number]? = some ⟨e.name, e.kind, e.span, scope⟩ ∧
      t.inFunction scope = e.inside := by
  obtain ⟨⟨s, k⟩, hmem, rfl⟩ := List.mem_map.mp h
  refine ⟨s.scope, ?_, rfl⟩
  rw [List.mem_zipIdx_iff_getElem?, Array.getElem?_toList] at hmem
  exact hmem

/-- Which scopes lie in functions depends on what scopes belong to and on the scopes around them. -/
theorem inFunction_congr (index : Nat)
    (h : ∀ j, j ≤ index → (t'.scopes[j]?).map (fun s => (s.parent, s.kind)) =
      (t.scopes[j]?).map fun s => (s.parent, s.kind)) :
    t'.inFunction index = t.inFunction index := by
  unfold inFunction
  induction index using Nat.strongRecOn with
  | ind index ih =>
    have hindex := h index (Nat.le_refl index)
    rw [chainFrom, chainFrom]
    cases hs : t.scopes[index]? with
    | none =>
      rw [hs, Option.map_none, Option.map_eq_none_iff] at hindex
      rw [hindex]
    | some scope =>
      rw [hs, Option.map_some] at hindex
      obtain ⟨scope', hs', hsame⟩ := Option.map_eq_some_iff.mp hindex
      obtain ⟨hparent, hkind⟩ := Prod.mk.inj hsame
      rw [hs']
      simp only [List.any_cons, hparent, hkind]
      cases scope.parent with
      | none => rfl
      | some parent =>
        by_cases hlt : parent < index
        · simp only [if_pos hlt]
          rw [ih parent hlt fun j hj => h j (by omega)]
        · simp only [if_neg hlt]

/-- The symbols of a table stay as they are if they are in the same scopes of the same kinds. -/
theorem declared_congr (hsymbols : t'.symbols = t.symbols)
    (hscopes : ∀ s ∈ t.symbols.toList, t'.inFunction s.scope = t.inFunction s.scope) :
    t'.declared = t.declared := by
  unfold declared
  rw [hsymbols]
  refine List.map_congr_left ?_
  rintro ⟨s, k⟩ hmem
  dsimp only
  rw [hscopes s (List.fst_mem_of_mem_zipIdx hmem)]

/-- Defining a symbol moves no scope. -/
theorem inFunction_define (t : SymbolTable) (name : String) (kind : SymbolKind) (span : Span)
    (index : Nat) : (t.define name kind span).inFunction index = t.inFunction index := by
  refine inFunction_congr index fun j _ => ?_
  have hscope : (t.define name kind span).scopes[j]? = _ := Array.getElem?_modify ..
  rw [hscope]
  split
  · rw [Option.map_map]
    rfl
  · rfl

/-- A symbol is defined in the current scope, which is there. -/
theorem Kept.define (h : t.Kept) (name : String) (kind : SymbolKind) (span : Span) :
    (t.define name kind span).Kept := by
  refine ⟨h.wf.define name kind span, ?_⟩
  show ∀ s ∈ (t.symbols.push _).toList, s.scope < (t.scopes.modify _ _).size
  rw [Array.size_modify, Array.toList_push]
  intro s hs
  rcases List.mem_append.mp hs with hs | hs
  · exact h.scope_lt s hs
  · rw [List.mem_singleton.mp hs]
    exact h.wf.current

/-- A symbol is declared where the table stands. -/
theorem declared_define (t : SymbolTable) (name : String) (kind : SymbolKind) (span : Span) :
    (t.define name kind span).declared =
      t.declared ++ [⟨⟨t.symbols.size, name, kind, span⟩, t.inFunction t.current⟩] := by
  have hsymbols : (t.define name kind span).symbols.toList =
      t.symbols.toList ++ [⟨name, kind, span, t.current⟩] := Array.toList_push ..
  unfold declared
  simp only [inFunction_define]
  rw [hsymbols, List.zipIdx_append, List.map_append, Nat.zero_add, Array.length_toList]
  rfl

/-- Entering a scope keeps the symbols in scopes that are there. -/
theorem Kept.enter (h : t.Kept) (kind : ScopeKind) : (t.enter kind).Kept := by
  refine ⟨h.wf.enter kind, fun s hs => ?_⟩
  show s.scope < (t.scopes.push _).size
  rw [Array.size_push]
  exact Nat.lt_succ_of_lt (h.scope_lt s hs)

/-- Entering a scope declares nothing and moves no symbol into a function. -/
theorem Kept.declared_enter (h : t.Kept) (kind : ScopeKind) :
    (t.enter kind).declared = t.declared := by
  refine declared_congr rfl fun s hs => inFunction_congr _ fun j hj => ?_
  have hlt := h.scope_lt s hs
  have hscope : (t.enter kind).scopes[j]? = t.scopes[j]? :=
    (Array.getElem?_push ..).trans (if_neg (by omega))
  rw [hscope]

/-- A scope lies in a function if it is one, or if the scope around it does. -/
theorem inFunction_enter (h : t.WF) (kind : ScopeKind) :
    (t.enter kind).inFunction (t.enter kind).current =
      (kind == .function || t.inFunction t.current) := by
  show (t.enter kind).chain.any _ = _
  rw [chain_enter h, List.any_cons]
  rfl

/-- Leaving a scope forgets no symbol. -/
theorem declared_exit (t : SymbolTable) : t.exit.declared = t.declared := by
  unfold exit
  split
  · exact declared_congr rfl fun s _ => inFunction_congr _ fun _ _ => rfl
  · rfl

/-! ## What a walk adds to a table -/

/-- A table has come from another by some declarations, and stands at the same depth. -/
structure Lists (t' t : SymbolTable) (new : List Declared) : Prop where
  kept : t'.Kept
  declared : t'.declared = t.declared ++ new
  kinds : t'.chain.map Scope.kind = t.chain.map Scope.kind

namespace Lists

variable {t'' : SymbolTable} {new new' : List Declared}

theorem nothing (h : t.Kept) : t.Lists t [] := ⟨h, (List.append_nil _).symm, rfl⟩

theorem append (h : t'.Lists t new) (h' : t''.Lists t' new') : t''.Lists t (new ++ new') :=
  ⟨h'.kept, by rw [h'.declared, h.declared, List.append_assoc], h'.kinds.trans h.kinds⟩

theorem size (h : t'.Lists t new) : t'.symbols.size = t.symbols.size + new.length := by
  rw [← t'.length_declared, h.declared, List.length_append, length_declared]

/-- At the same depth a place lies in a function if and only if it did. -/
theorem inFunction (h : t'.Lists t new) :
    t'.inFunction t'.current = t.inFunction t.current := by
  have hany : ∀ u : SymbolTable,
      u.inFunction u.current = (u.chain.map Scope.kind).any (· == .function) := by
    intro u
    rw [List.any_map]
    rfl
  rw [hany, hany, h.kinds]

/-- Defining a symbol makes one declaration, with the next number. -/
theorem define (h : t.Kept) (name : String) (kind : SymbolKind) (span : Span) :
    (t.define name kind span).Lists t
      [⟨⟨t.symbols.size, name, kind, span⟩, t.inFunction t.current⟩] := by
  refine ⟨h.define name kind span, t.declared_define name kind span, ?_⟩
  obtain ⟨s, rest, hchain⟩ := h.wf.exists_chain
  rw [chain_define h.wf hchain, hchain]
  rfl

/-- Opening a scope, declaring something in it, and closing it again. -/
theorem exit {kind : ScopeKind} (h : t'.Lists (t.enter kind) new) (ht : t.Kept) :
    t'.exit.Lists t new := by
  have hdeclared := h.declared
  rw [ht.declared_enter] at hdeclared
  have hkinds := h.kinds
  rw [chain_enter ht.wf] at hkinds
  obtain ⟨u, rest, hrest⟩ := ht.wf.exists_chain
  rw [hrest] at hkinds
  obtain ⟨s, rest₁, hchain, -, hrest₁⟩ := List.map_eq_cons_iff.mp hkinds
  obtain ⟨u', rest₂, rfl, hu', hrest₂⟩ := List.map_eq_cons_iff.mp hrest₁
  obtain ⟨hexit, hwf, hsymbols⟩ := chain_exit h.kept.wf hchain
  refine ⟨⟨hwf, ?_⟩, t'.declared_exit.trans hdeclared, ?_⟩
  · rw [hsymbols, scopes_exit]
    exact h.kept.scope_lt
  · rw [hexit, hrest, List.map_cons, List.map_cons, hu', hrest₂]

end Lists

end SymbolTable

namespace Walk

open SymbolTable

variable {w : Walk}

/-- A declaration without a fault adds the symbol. -/
theorem lists_declare (hw : w.table.Kept) {name : String} {kind : SymbolKind} {span : Span}
    {fault : ScopeFault} (h : (w.declare name kind span fault).faults = []) :
    (w.declare name kind span fault).table.Lists w.table
      [⟨⟨w.table.symbols.size, name, kind, span⟩, w.table.inFunction w.table.current⟩] := by
  rw [(of_declare h).2.2]
  exact .define hw name kind span

/-- A walk over the parameters of a function without a fault declares them in their order. -/
theorem lists_parameters (function : String) (span : Span) : ∀ (params : List String) {w : Walk},
    w.table.Kept → w.table.inFunction w.table.current = true →
    (w.parameters function params span).faults = [] →
    (w.parameters function params span).table.Lists w.table
      (Declared.parameters span w.table.symbols.size params)
  | [], w, hw, _, _ => .nothing hw
  | p :: rest, w, hw, hinside, h => by
    have hfirst := lists_declare hw (faults_of_parameters function span rest h)
    have hrest := lists_parameters function span rest hfirst.kept
      (hfirst.inFunction.trans hinside) h
    rw [hfirst.size, List.length_singleton] at hrest
    rw [hinside] at hfirst
    exact hfirst.append hrest

/-- A walk over a block in a fresh scope, if a walk over the block adds its declarations. -/
theorem lists_scoped {w' : Walk} {around : Surroundings} {body : List Stmt}
    (htable : w'.table = w.table) (hw : w.table.Kept)
    (hbody : ∀ {w : Walk}, w.table.Kept → (w.block around body).faults = [] →
      (w.block around body).table.Lists w.table
        (Stmt.declarationsIn (w.table.inFunction w.table.current) w.table.symbols.size body))
    (h : ((w'.enter .block).block around body).exit.faults = []) :
    ((w'.enter .block).block around body).exit.table.Lists w.table
      (Stmt.declarationsIn (w.table.inFunction w.table.current) w.table.symbols.size body) := by
  rw [← htable] at hw ⊢
  have hentered : (w'.enter .block).table.Kept := hw.enter .block
  have hlists := hbody hentered h
  have hinside : (w'.enter .block).table.inFunction (w'.enter .block).table.current =
      w'.table.inFunction w'.table.current := inFunction_enter hw.wf .block
  rw [hinside] at hlists
  exact hlists.exit hw

mutual

/-- A walk over a statement without faults adds the declarations of the statement. -/
theorem lists_stmt (around : Surroundings) : ∀ (s : Stmt) {w : Walk}, w.table.Kept →
    (w.stmt around s).faults = [] → (w.stmt around s).table.Lists w.table
      (s.declarations (w.table.inFunction w.table.current) w.table.symbols.size)
  | .letStmt span name value, w, hw, h => by
    rw [stmt] at h ⊢
    rw [Stmt.declarations]
    have hvalue : (w.expr? value).table = w.table := by
      cases value with
      | none => rfl
      | some e => exact table_expr e w
    rw [← hvalue] at hw ⊢
    exact lists_declare hw h
  | .fnStmt span name params body, w, hw, h => by
    rw [stmt] at h ⊢
    rw [Stmt.declarations]
    have hparams := faults_of_block ⟨0, true⟩ body h
    have hdeclare := faults_of_parameters name span params hparams
    have hreport := (of_reportIf (of_declare hdeclare).1).2
    rw [hreport] at hdeclare hparams h ⊢
    have hfirst := lists_declare hw hdeclare
    generalize w.declare name (.function params) span (.duplicateFunction name) = w₁ at *
    -- The parameters and the body are declared in a scope of their own.
    have hkept : (w₁.enter .function).table.Kept := hfirst.kept.enter .function
    have hinside : (w₁.enter .function).table.inFunction (w₁.enter .function).table.current =
        true := inFunction_enter hfirst.kept.wf .function
    have hsize : (w₁.enter .function).table.symbols.size = w.table.symbols.size + 1 := hfirst.size
    have hps := lists_parameters name span params hkept hinside hparams
    have hbody := lists_block ⟨0, true⟩ body hps.kept h
    rw [hps.inFunction, hinside, hps.size, Declared.length_parameters, hsize] at hbody
    rw [hsize] at hps
    exact hfirst.append ((hps.append hbody).exit hfirst.kept)
  | .returnStmt span value, w, hw, h => by
    rw [stmt] at h ⊢
    rw [Stmt.declarations]
    have hvalue := faults_of_expr? value h
    rw [(of_reportIf hvalue).2] at h ⊢
    cases value with
    | none => exact .nothing hw
    | some e =>
      rw [expr?, table_expr]
      exact .nothing hw
  | .breakStmt span, w, hw, h => by
    rw [stmt] at h ⊢
    rw [Stmt.declarations, (of_reportIf h).2]
    exact .nothing hw
  | .continueStmt span, w, hw, h => by
    rw [stmt] at h ⊢
    rw [Stmt.declarations, (of_reportIf h).2]
    exact .nothing hw
  | .ifStmt _ cond body, w, hw, h => by
    rw [stmt] at h ⊢
    rw [Stmt.declarations]
    exact lists_scoped (table_expr cond w) hw (lists_block around body) h
  | .ifElseStmt _ cond body other, w, hw, h => by
    rw [stmt] at h ⊢
    rw [Stmt.declarations]
    have hthen := faults_of_block around other h
    have hfirst := lists_scoped (table_expr cond w) hw (lists_block around body) hthen
    have hother := lists_scoped rfl hfirst.kept (lists_block around other) h
    rw [hfirst.inFunction, hfirst.size, Stmt.length_declarationsIn] at hother
    exact hfirst.append hother
  | .whileStmt _ cond body, w, hw, h => by
    rw [stmt] at h ⊢
    rw [Stmt.declarations]
    exact lists_scoped (table_expr cond w) hw (lists_block _ body) h
  | .exprStmt _ value, w, hw, h => by
    rw [stmt, Stmt.declarations, table_expr]
    exact .nothing hw

/-- A walk over a block without a fault makes the declarations of the block, in the order of the
text. -/
theorem lists_block (around : Surroundings) : ∀ (ss : List Stmt) {w : Walk}, w.table.Kept →
    (w.block around ss).faults = [] → (w.block around ss).table.Lists w.table
      (Stmt.declarationsIn (w.table.inFunction w.table.current) w.table.symbols.size ss)
  | [], w, hw, _ => by
    rw [block, Stmt.declarationsIn]
    exact .nothing hw
  | s :: rest, w, hw, h => by
    rw [block] at h ⊢
    rw [Stmt.declarationsIn]
    have hfirst := lists_stmt around s hw (faults_of_block around rest h)
    have hrest := lists_block around rest hfirst.kept h
    rw [hfirst.inFunction, hfirst.size, Stmt.length_declarations] at hrest
    exact hfirst.append hrest

end

end Walk

/-! ## Modules -/

/-- At the start just the built-in functions are declared, outside of all functions. -/
theorem SymbolTable.declared_initial : initial.Kept ∧ initial.declared = Builtin.declarations ∧
    initial.inFunction initial.current = false := by
  have hblank : blank.Kept := ⟨.blank, nofun⟩
  have hglobal : blank.inFunction blank.current = false := by
    show blank.chain.any _ = false
    rw [chain_blank]
    rfl
  have hprint := Lists.define hblank "print" .builtin .zero
  have hinput := hprint.append (.define hprint.kept "input" .builtin .zero)
  refine ⟨hinput.kept, ?_, hinput.inFunction.trans hglobal⟩
  rw [hprint.inFunction, hglobal] at hinput
  exact hinput.declared

/-- The symbols of an accepted module are its declarations, in their order. -/
theorem Module.declared_of_resolve {m : Module} {found : Resolution} (h : m.resolve = .ok found) :
    found.table.declared = m.declarations := by
  obtain ⟨hkept, hbuiltins, hglobal⟩ := SymbolTable.declared_initial
  rw [resolve] at h
  split at h
  · next hempty =>
    cases h
    have hlists := Walk.lists_block ⟨0, false⟩ m.body (w := Walk.initial) hkept
      (List.isEmpty_iff.mp hempty)
    have hdeclared := hlists.declared
    rw [show Walk.initial.table = SymbolTable.initial from rfl, hglobal, hbuiltins] at hdeclared
    exact hdeclared
  · cases h

end Scriptlet
