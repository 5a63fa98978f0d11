import Mathlib.Data.List.Nodup
import Scriptlet.Proofs.Accepted
import Scriptlet.Proofs.References
import Scriptlet.Proofs.ScopePaths
import Scriptlet.Proofs.Scoping
import Scriptlet.Proofs.SortedEntries
import Scriptlet.Token.Scan

/-!
# Every use of a name is bound

A walk without faults opens the scopes of the tree in the order of the text, comes back to where it
was, and binds every use of a name to a symbol of this name in one of the scopes around the use
(`Walk.binds_block`).  Since parsing numbers the uses of names without a gap, the numbers are
exactly the keys of the bindings (`Module.parse_bindings`).
-/

namespace Scriptlet

/-- A symbol is what a use of a name can stand for: it has the name, it belongs to a scope around
the use, and if the name is called, it takes as many arguments. -/
def Reference.Names (r : Reference) (t : SymbolTable) (id : Nat) : Prop :=
  ∃ symbol, t.symbols[id]? = some symbol ∧ symbol.name = r.name ∧ symbol.scope ∈ r.scopes ∧
    ∀ n ∈ r.args, symbol.kind.Takes n

namespace Walk

/-- A walk without faults has come from one state to another, where it opened some scopes and bound
some uses of names. -/
structure Binds (w' w : Walk) (scopes : List (Option Nat × ScopeKind)) (refs : List Reference) :
    Prop where
  filed : w'.table.Filed
  path : w'.table.path = w.table.path
  outline : w'.table.outline = w.table.outline ++ scopes
  /-- No symbol is lost. -/
  grows : ∀ {id : Nat} {symbol : Symbol}, w.table.symbols[id]? = some symbol →
    w'.table.symbols[id]? = some symbol
  bound : ∃ bound : List (Reference × Nat), (bound.map Prod.fst).Perm refs ∧
    w'.found.bindings =
      (bound.map fun b => (b.1.id, b.2)).foldl (fun m e => m.insert e.1 e.2) w.found.bindings ∧
    ∀ b ∈ bound, b.1.Names w'.table b.2

variable {w w' w'' : Walk} {scopes scopes' : List (Option Nat × ScopeKind)}
  {refs refs' : List Reference}

namespace Binds

/-- Nothing is bound, and at most symbols are added. -/
theorem nothing (hfiled : w'.table.Filed) (hpath : w'.table.path = w.table.path)
    (houtline : w'.table.outline = w.table.outline)
    (hgrows : ∀ {id : Nat} {symbol : Symbol}, w.table.symbols[id]? = some symbol →
      w'.table.symbols[id]? = some symbol)
    (hbindings : w'.found.bindings = w.found.bindings) : w'.Binds w [] [] :=
  ⟨hfiled, hpath, houtline.trans (List.append_nil _).symm, hgrows, [], .refl _, hbindings, nofun⟩

theorem refl (h : w.table.Filed) : w.Binds w [] [] := nothing h rfl rfl id rfl

/-- Two steps of a walk open the scopes and bind the uses of both. -/
theorem append (h : w'.Binds w scopes refs) (h' : w''.Binds w' scopes' refs') :
    w''.Binds w (scopes ++ scopes') (refs ++ refs') := by
  obtain ⟨bound, hperm, hbindings, hnames⟩ := h.bound
  obtain ⟨bound', hperm', hbindings', hnames'⟩ := h'.bound
  refine ⟨h'.filed, h'.path.trans h.path, ?_, fun hs => h'.grows (h.grows hs), bound ++ bound',
    ?_, ?_, ?_⟩
  · rw [h'.outline, h.outline, List.append_assoc]
  · rw [List.map_append]
    exact hperm.append hperm'
  · rw [hbindings', hbindings, List.map_append, List.foldl_append]
  · intro b hb
    rcases List.mem_append.mp hb with hb | hb
    · obtain ⟨symbol, hsymbol, hrest⟩ := hnames b hb
      exact ⟨symbol, h'.grows hsymbol, hrest⟩
    · exact hnames' b hb

/-- The order in which names are bound does not matter. -/
theorem perm (h : w'.Binds w scopes refs) (hrefs : refs.Perm refs') : w'.Binds w scopes refs' := by
  obtain ⟨bound, hperm, hrest⟩ := h.bound
  exact { h with bound := ⟨bound, hperm.trans hrefs, hrest⟩ }

theorem size (h : w'.Binds w scopes refs) :
    w'.table.scopes.size = w.table.scopes.size + scopes.length := by
  rw [← w'.table.length_outline, h.outline, List.length_append, SymbolTable.length_outline]

/-- A use that is bound names its symbol. -/
theorem bind (h : w.table.Filed) {r : Reference} {symbol : Nat} (hr : r.Names w.table symbol) :
    (w.bind r.id symbol).Binds w [] [r] := by
  refine ⟨h, rfl, (List.append_nil _).symm, id, [(r, symbol)], .refl _, rfl, ?_⟩
  intro b hb
  rw [List.mem_singleton.mp hb]
  exact hr

/-- Opening a scope, walking in it, and closing it again. -/
theorem exit {kind : ScopeKind} (h : w'.Binds (w.enter kind) scopes refs) (hw : w.table.Filed) :
    w'.exit.Binds w ((w.table.path.head?, kind) :: scopes) refs := by
  obtain ⟨bound, hperm, hbindings, hnames⟩ := h.bound
  have hsymbols : w'.exit.table.symbols = w'.table.symbols := SymbolTable.symbols_exit _
  refine ⟨h.filed.exit, ?_, ?_, fun hs => ?_, bound, hperm, hbindings, fun b hb => ?_⟩
  · have hpath : w'.table.path = w.table.scopes.size :: w.table.path :=
      h.path.trans (SymbolTable.path_enter hw.wf kind)
    exact SymbolTable.path_exit h.filed.wf hpath (List.cons_ne_nil _ _)
  · have houtline : w'.table.outline =
        w.table.outline ++ [(some w.table.current, kind)] ++ scopes := by
      rw [h.outline]
      exact congrArg (· ++ scopes) (SymbolTable.outline_enter _ kind)
    rw [List.append_assoc, List.singleton_append] at houtline
    exact (SymbolTable.outline_exit _).trans houtline
  · rw [hsymbols]
    exact h.grows hs
  · rw [Reference.Names, hsymbols]
    exact hnames b hb

end Binds

/-! ## Names -/

/-- A declaration without a fault binds nothing. -/
theorem binds_declare (hw : w.table.Filed) {name : String} {kind : SymbolKind} {span : Span}
    {fault : ScopeFault} (h : (w.declare name kind span fault).faults = []) :
    (w.declare name kind span fault).Binds w [] [] := by
  obtain ⟨-, -, htable⟩ := of_declare h
  have hbindings : (w.declare name kind span fault).found.bindings = w.found.bindings := by
    unfold declare
    split <;> rfl
  refine .nothing ?_ ?_ ?_ ?_ hbindings
  · rw [htable]
    exact hw.define name kind span
  · rw [htable]
    exact SymbolTable.path_define hw.wf name kind span
  · rw [htable]
    exact SymbolTable.outline_define _ name kind span
  · rw [htable]
    exact Program.getElem?_push_of_eq_some

/-- Parameters open no scope and use no name. -/
theorem binds_parameters (function : String) (span : Span) : ∀ (params : List String) {w : Walk},
    w.table.Filed → (w.parameters function params span).faults = [] →
    (w.parameters function params span).Binds w [] []
  | [], w, hw, _ => .refl hw
  | _ :: rest, w, hw, h => by
    have hfirst := binds_declare hw (faults_of_parameters function span rest h)
    exact hfirst.append (binds_parameters function span rest hfirst.filed h)

/-- A variable that is used without a fault is bound to a symbol that can be seen. -/
theorem binds_useVariable (hw : w.table.Filed) {node : Nat} {name : String} {span : Span}
    (h : (w.useVariable node name span).faults = []) :
    (w.useVariable node name span).Binds w [] [⟨node, name, none, w.table.path⟩] := by
  unfold useVariable at h ⊢
  cases hlookup : w.table.lookup name with
  | none =>
    rw [hlookup] at h
    exact absurd h (faults_report_ne_nil _ _)
  | some id =>
    obtain ⟨symbol, hsymbol, hname, hscope⟩ := hw.exists_of_lookup hlookup
    exact Binds.bind (r := ⟨node, name, none, w.table.path⟩) hw
      ⟨symbol, hsymbol, hname, hscope, nofun⟩

/-- A call without a fault is bound to a symbol that takes the arguments. -/
theorem binds_useFunction (hw : w.table.Filed) {node : Nat} {name : String} {args : Nat}
    {span : Span} (h : (w.useFunction node name args span).faults = []) :
    (w.useFunction node name args span).Binds w [] [⟨node, name, some args, w.table.path⟩] := by
  unfold useFunction at h ⊢
  cases hlookup : w.table.lookup name with
  | none =>
    rw [hlookup] at h
    exact absurd h (faults_report_ne_nil _ _)
  | some id =>
    obtain ⟨symbol, hsymbol, hname, hscope⟩ := hw.exists_of_lookup hlookup
    rw [hlookup] at h
    simp only [hsymbol, Option.map_some] at h ⊢
    -- The symbol is bound whenever it takes the arguments, and every other case is a fault.
    have hbound : symbol.kind.Takes args →
        (w.bind node id).Binds w [] [⟨node, name, some args, w.table.path⟩] := by
      intro htakes
      refine Binds.bind (r := ⟨node, name, some args, w.table.path⟩) hw
        ⟨symbol, hsymbol, hname, hscope, fun n hn => ?_⟩
      cases hn
      exact htakes
    cases hkind : symbol.kind with
    | «variable» =>
      rw [hkind] at h
      exact absurd h (faults_report_ne_nil _ _)
    | builtin => exact hbound (by rw [hkind]; trivial)
    | function params =>
      rw [hkind] at h
      dsimp only at h ⊢
      by_cases hlen : params.length = args
      · rw [if_pos hlen]
        exact hbound (by rw [hkind]; exact hlen)
      · rw [if_neg hlen] at h
        exact absurd h (faults_report_ne_nil _ _)

/-! ## Expressions -/

mutual

/-- A walk over an expression without faults binds its uses of names. -/
theorem binds_expr : ∀ (e : Expr) {w : Walk}, w.table.Filed → (w.expr e).faults = [] →
    (w.expr e).Binds w [] (e.references w.table.path)
  | .literal _ _, w, hw, _ => by
    rw [expr, Expr.references]
    exact .refl hw
  | .name _ _ _, w, hw, h => by
    rw [expr] at h ⊢
    rw [Expr.references]
    exact binds_useVariable hw h
  | .binary _ _ left right, w, hw, h => by
    rw [expr] at h ⊢
    rw [Expr.references]
    have hleft := binds_expr left hw (faults_of_expr right h)
    have hright := binds_expr right hleft.filed h
    rw [hleft.path] at hright
    exact hleft.append hright
  | .not _ operand, w, hw, h => by
    rw [expr] at h ⊢
    rw [Expr.references]
    exact binds_expr operand hw h
  | .call _ _ _ args, w, hw, h => by
    rw [expr] at h ⊢
    rw [Expr.references]
    have hargs := binds_exprs args hw (faults_of_useFunction h)
    have hcall := binds_useFunction hargs.filed h
    rw [hargs.path] at hcall
    -- The arguments are bound before the function.
    exact (hargs.append hcall).perm (List.perm_append_singleton ..)

/-- A walk over some expressions without faults binds the uses of names in them. -/
theorem binds_exprs : ∀ (es : List Expr) {w : Walk}, w.table.Filed → (w.exprs es).faults = [] →
    (w.exprs es).Binds w [] (Expr.referencesIn w.table.path es)
  | [], w, hw, _ => by
    rw [exprs, Expr.referencesIn]
    exact .refl hw
  | e :: rest, w, hw, h => by
    rw [exprs] at h ⊢
    rw [Expr.referencesIn]
    have hfirst := binds_expr e hw (faults_of_exprs rest h)
    have hrest := binds_exprs rest hfirst.filed h
    rw [hfirst.path] at hrest
    exact hfirst.append hrest

end

theorem binds_expr? (hw : w.table.Filed) (value : Option Expr) (h : (w.expr? value).faults = []) :
    (w.expr? value).Binds w [] (Expr.references? w.table.path value) := by
  cases value with
  | none => exact .refl hw
  | some e => exact binds_expr e hw h

/-! ## Statements -/

/-- A walk over a block in a fresh scope, if a walk over the block binds its uses of names. -/
theorem binds_scoped (hw : w.table.Filed) {around : Surroundings} {body : List Stmt}
    (hbody : ∀ {w : Walk}, w.table.Filed → (w.block around body).faults = [] →
      (w.block around body).Binds w (Stmt.scopesIn w.table.path w.table.scopes.size body)
        (Stmt.referencesIn w.table.path w.table.scopes.size body))
    (h : ((w.enter .block).block around body).exit.faults = []) :
    ((w.enter .block).block around body).exit.Binds w
      ((w.table.path.head?, .block) ::
        Stmt.scopesIn (w.table.scopes.size :: w.table.path) (w.table.scopes.size + 1) body)
      (Stmt.referencesIn (w.table.scopes.size :: w.table.path) (w.table.scopes.size + 1) body) := by
  have hpath : (w.enter .block).table.path = w.table.scopes.size :: w.table.path :=
    SymbolTable.path_enter hw.wf .block
  have hsize : (w.enter .block).table.scopes.size = w.table.scopes.size + 1 := Array.size_push ..
  have hinside := hbody (w := w.enter .block) (hw.enter .block) h
  rw [hpath, hsize] at hinside
  exact hinside.exit hw

mutual

/-- A walk over a statement without faults opens its scopes and binds its uses of names. -/
theorem binds_stmt (around : Surroundings) : ∀ (s : Stmt) {w : Walk}, w.table.Filed →
    (w.stmt around s).faults = [] →
    (w.stmt around s).Binds w (s.scopes w.table.path w.table.scopes.size)
      (s.references w.table.path w.table.scopes.size)
  | .letStmt _ name value, w, hw, h => by
    rw [stmt] at h ⊢
    rw [Stmt.scopes, Stmt.references]
    have hvalue := binds_expr? hw value (of_declare h).1
    have hdeclared := hvalue.append (binds_declare hvalue.filed h)
    rwa [List.append_nil, List.append_nil] at hdeclared
  | .fnStmt span name params body, w, hw, h => by
    rw [stmt] at h ⊢
    rw [Stmt.scopes, Stmt.references]
    have hparams := faults_of_block ⟨0, true⟩ body h
    have hdeclare := faults_of_parameters name span params hparams
    have hreport := (of_reportIf (of_declare hdeclare).1).2
    rw [hreport] at hdeclare hparams h ⊢
    have hfirst := binds_declare hw hdeclare
    -- The declaration opens no scope, so from here on only the walk behind it matters.
    generalize w.declare name (.function params) span (.duplicateFunction name) = w₁ at *
    have hsame : w₁.table.scopes.size = w.table.scopes.size := hfirst.size
    have hpath : (w₁.enter .function).table.path = w.table.scopes.size :: w.table.path := by
      rw [← hfirst.path, ← hsame]
      exact SymbolTable.path_enter hfirst.filed.wf .function
    have hsize : (w₁.enter .function).table.scopes.size = w.table.scopes.size + 1 := by
      rw [← hsame]
      exact Array.size_push ..
    -- The parameters and the body stand in the scope that is entered.
    have hps := binds_parameters name span params (w := w₁.enter .function)
      (hfirst.filed.enter .function) hparams
    have hbody := binds_block ⟨0, true⟩ body hps.filed h
    rw [hps.path, hps.size, hpath, List.length_nil, Nat.add_zero, hsize] at hbody
    have hinside := (hps.append hbody).exit hfirst.filed
    rw [hfirst.path] at hinside
    exact hfirst.append hinside
  | .returnStmt _ value, w, hw, h => by
    rw [stmt] at h ⊢
    rw [Stmt.scopes, Stmt.references]
    have hreport := faults_of_expr? value h
    rw [(of_reportIf hreport).2] at h ⊢
    exact binds_expr? hw value h
  | .breakStmt _, w, hw, h => by
    rw [stmt] at h ⊢
    rw [Stmt.scopes, Stmt.references, (of_reportIf h).2]
    exact .refl hw
  | .continueStmt _, w, hw, h => by
    rw [stmt] at h ⊢
    rw [Stmt.scopes, Stmt.references, (of_reportIf h).2]
    exact .refl hw
  | .ifStmt _ cond body, w, hw, h => by
    rw [stmt] at h ⊢
    rw [Stmt.scopes, Stmt.references]
    have hentered := faults_of_block around body h
    have hcond := binds_expr cond hw hentered
    have hbody := binds_scoped hcond.filed (binds_block around body) h
    rw [table_expr] at hbody
    exact hcond.append hbody
  | .ifElseStmt _ cond body other, w, hw, h => by
    rw [stmt] at h ⊢
    rw [Stmt.scopes, Stmt.references]
    have hthen := faults_of_block around other h
    have hentered := faults_of_block around body hthen
    have hcond := binds_expr cond hw hentered
    have hbody := binds_scoped hcond.filed (binds_block around body) hthen
    rw [table_expr] at hbody
    have hfirst := hcond.append hbody
    have hother := binds_scoped hfirst.filed (binds_block around other) h
    -- The other block opens its scopes behind those of the first.
    rw [hfirst.path, hfirst.size, List.nil_append, List.length_cons, Stmt.length_scopesIn,
      Nat.add_comm (Stmt.openedIn body)] at hother
    exact hfirst.append hother
  | .whileStmt _ cond body, w, hw, h => by
    rw [stmt] at h ⊢
    rw [Stmt.scopes, Stmt.references]
    have hentered := faults_of_block _ body h
    have hcond := binds_expr cond hw hentered
    have hbody := binds_scoped hcond.filed (binds_block _ body) h
    rw [table_expr] at hbody
    exact hcond.append hbody
  | .exprStmt _ value, w, hw, h => by
    rw [stmt] at h ⊢
    rw [Stmt.scopes, Stmt.references]
    exact binds_expr value hw h

/-- A walk over a block without faults opens its scopes and binds the uses of names in it, in the
order of the text. -/
theorem binds_block (around : Surroundings) : ∀ (ss : List Stmt) {w : Walk}, w.table.Filed →
    (w.block around ss).faults = [] →
    (w.block around ss).Binds w (Stmt.scopesIn w.table.path w.table.scopes.size ss)
      (Stmt.referencesIn w.table.path w.table.scopes.size ss)
  | [], w, hw, _ => by
    rw [block, Stmt.scopesIn, Stmt.referencesIn]
    exact .refl hw
  | s :: rest, w, hw, h => by
    rw [block] at h ⊢
    rw [Stmt.scopesIn, Stmt.referencesIn]
    have hfirst := binds_stmt around s hw (faults_of_block around rest h)
    have hrest := binds_block around rest hfirst.filed h
    rw [hfirst.path, hfirst.size, Stmt.length_scopes] at hrest
    exact hfirst.append hrest

end

end Walk

/-! ## Modules -/

/-- In an accepted module the scopes of the table are those of the text, the table stands in the
global scope, and all uses of names are bound, one after the other. -/
theorem Module.binds_of_resolve {m : Module} {found : Resolution} (h : m.resolve = .ok found) :
    found.table.outline = m.scopes ∧ found.table.path = [0] ∧
    ∃ bound : List (Reference × Nat), (bound.map Prod.fst).Perm m.references ∧
      found.bindings = .ofList (bound.map fun b => (b.1.id, b.2)) ∧
      ∀ b ∈ bound, b.1.Names found.table b.2 := by
  obtain ⟨hfiled, hpath, houtline⟩ := SymbolTable.filed_initial
  rw [resolve] at h
  split at h
  · next hempty =>
    cases h
    have hsize : SymbolTable.initial.scopes.size = 1 := by
      rw [← SymbolTable.length_outline, houtline]
      rfl
    have hbinds := Walk.binds_block ⟨0, false⟩ m.body (w := Walk.initial) hfiled
      (List.isEmpty_iff.mp hempty)
    have htable : Walk.initial.table = SymbolTable.initial := rfl
    rw [htable, hpath, hsize] at hbinds
    refine ⟨?_, hbinds.path.trans hpath, hbinds.bound⟩
    have hscopes := hbinds.outline
    rw [htable, houtline] at hscopes
    exact hscopes
  · cases h

/-- If a list has no key twice, it is what can be read of the map made of it. -/
theorem SortedMap.find?_ofList_of_nodup {es : List (Nat × Nat)} (h : (es.map Prod.fst).Nodup)
    {k v : Nat} : (ofList es).find? k = some v ↔ (k, v) ∈ es := by
  refine find?_ofList fun k v w hv hw => ?_
  exact (Prod.mk.inj (List.inj_on_of_nodup_map h hv hw rfl)).2

/-- If a list has no key twice, the map made of it has the same keys in increasing order. -/
theorem SortedMap.keys_ofList {es : List (Nat × Nat)} (h : (es.map Prod.fst).Nodup) :
    ((ofList es).entries.map Prod.fst).Pairwise (· < ·) ∧
      ((ofList es).entries.map Prod.fst).Perm (es.map Prod.fst) := by
  have hordered : (ofList es).Ordered := Ordered.foldl_insert es ordered_empty
  have hkeys : ((ofList es).entries.map Prod.fst).Pairwise (· < ·) := List.pairwise_map.mpr hordered
  refine ⟨hkeys, (List.perm_ext_iff_of_nodup (hkeys.imp Nat.ne_of_lt) h).mpr fun k => ?_⟩
  constructor
  · intro hk
    obtain ⟨⟨k, v⟩, hmem, rfl⟩ := List.mem_map.mp hk
    have hread := hordered.find?_of_mem hmem
    exact List.mem_map_of_mem (f := Prod.fst) ((find?_ofList_of_nodup h).mp hread)
  · intro hk
    obtain ⟨⟨k, v⟩, hmem, rfl⟩ := List.mem_map.mp hk
    have hread := (find?_ofList_of_nodup h).mpr hmem
    exact List.mem_map_of_mem (f := Prod.fst) (mem_entries_of_find? hread)

/-- Numbers and bindings match up.  The uses of names in a parsed module, read in the order of the
text, have the numbers from 0 to the number of uses.  If the module is accepted, these are the keys
of its bindings, in their order.  Every use is bound to a symbol that has its name and belongs to a
scope around it, and a call is bound to a built-in function or to a function with as many parameters
as there are arguments.  The scopes of the symbol table are those of the text, and it stands in the
global one again. -/
theorem Module.parse_bindings {tokens : List Token} {m : Module} (h : parse tokens = .ok m) :
    m.references.map Reference.id = List.range m.nodeCount ∧
    ∀ found, m.resolve = .ok found →
      found.bindings.entries.map Prod.fst = List.range m.nodeCount ∧
      (∀ r ∈ m.references, ∃ id, found.bindings.find? r.id = some id ∧ r.Names found.table id) ∧
      found.table.outline = m.scopes ∧ found.table.current = 0 := by
  have hids := Module.map_id_references h
  refine ⟨hids, fun found hfound => ?_⟩
  obtain ⟨houtline, hpath, bound, hperm, hbindings, hnames⟩ := Module.binds_of_resolve hfound
  have hkeys : ((bound.map fun b => (b.1.id, b.2)).map Prod.fst).Perm (List.range m.nodeCount) := by
    have hmap := hperm.map Reference.id
    rw [hids, List.map_map] at hmap
    rw [List.map_map]
    exact hmap
  have hnodup := hkeys.nodup_iff.mpr List.nodup_range
  refine ⟨?_, fun r hr => ?_, houtline, (List.cons.inj hpath).1⟩
  · obtain ⟨hsorted, hsame⟩ := SortedMap.keys_ofList hnodup
    rw [hbindings]
    refine List.Perm.eq_of_pairwise (fun a b _ _ hab hba => ?_) hsorted List.pairwise_lt_range
      (hsame.trans hkeys)
    exact absurd hba (Nat.lt_asymm hab)
  · obtain ⟨b, hb, rfl⟩ := List.mem_map.mp (hperm.mem_iff.mpr hr)
    refine ⟨b.2, ?_, hnames b hb⟩
    rw [hbindings, SortedMap.find?_ofList_of_nodup hnodup]
    exact List.mem_map_of_mem (f := fun b : Reference × Nat => (b.1.id, b.2)) hb

/-- The tokens of a text in which a name stands for a parameter and for a variable of a block. -/
def Module.nestedTokens : List Token :=
  (Scan.ofString ("let x = 1 fn f(a, b) \x7b if a == x \x7b let a = b return f(a, x) \x7d" ++
    " else \x7b return a \x7d \x7d")).tokens

/-- The uses of names in `Module.nestedTokens` stand in the scope of the function and in those of
its two blocks, and they are all bound. -/
theorem Module.nested_bindings : ∃ m found, parse nestedTokens = .ok m ∧ m.resolve = .ok found ∧
    m.references.map (fun r => (r.id, r.scopes)) = [(0, [1, 0]), (1, [1, 0]), (2, [2, 1, 0]),
      (3, [2, 1, 0]), (4, [2, 1, 0]), (5, [2, 1, 0]), (6, [3, 1, 0])] ∧
    found.bindings.entries.map Prod.fst = [0, 1, 2, 3, 4, 5, 6] ∧
    (∀ r ∈ m.references, ∃ id, found.bindings.find? r.id = some id ∧ r.Names found.table id) ∧
    found.table.outline = [(none, .global), (some 0, .function), (some 1, .block),
      (some 1, .block)] ∧
    found.table.current = 0 := by
  have hrefs : (parse nestedTokens).toOption.map
      (fun m => m.references.map fun r => (r.id, r.scopes)) =
        some [(0, [1, 0]), (1, [1, 0]), (2, [2, 1, 0]), (3, [2, 1, 0]), (4, [2, 1, 0]),
          (5, [2, 1, 0]), (6, [3, 1, 0])] := by
    decide +kernel
  have hscopes : (parse nestedTokens).toOption.map Module.scopes =
      some [(none, .global), (some 0, .function), (some 1, .block), (some 1, .block)] := by
    decide +kernel
  have hcount : (parse nestedTokens).toOption.map (fun m => (m.nodeCount, m.resolve.isOk)) =
      some (7, true) := by
    decide +kernel
  cases hm : parse nestedTokens with
  | error fault =>
    rw [hm] at hcount
    cases hcount
  | ok m =>
    rw [hm, Except.toOption, Option.map_some, Option.some.injEq] at hrefs hscopes hcount
    obtain ⟨hcount, hok⟩ := Prod.mk.inj hcount
    cases hr : m.resolve with
    | error faults =>
      rw [hr] at hok
      cases hok
    | ok found =>
      obtain ⟨-, hresolved⟩ := Module.parse_bindings hm
      obtain ⟨hkeys, hbound, houtline, hcurrent⟩ := hresolved found hr
      rw [hcount] at hkeys
      exact ⟨m, found, rfl, hr, hrefs, hkeys, hbound, houtline.trans hscopes, hcurrent⟩

end Scriptlet
