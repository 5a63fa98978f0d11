import Scriptlet.Proofs.Chain
import Scriptlet.Proofs.Placement
import Scriptlet.Scope.Resolve

/-!
# Checking scopes with an environment

An environment has the declarations that can be seen from a place, scope by scope.  A checker hands
it on from statement to statement, and goes on with the old scopes behind a block, so it has nothing
to open or to close.  The walk with a symbol table finds the same faults in the same order, and
binds every use of a name to the declaration that the checker finds (`Walk.follows_block`).
-/

namespace Scriptlet

/-! ## Environments -/

/-- A declared name, with the number of declarations that were made before. -/
structure Declaration where
  number : Nat
  name : String
  kind : SymbolKind
  span : Span
  deriving Repr, DecidableEq

/-- The scopes around a place, the innermost first, each with its declarations by name, and the
number of declarations that were made so far in all scopes. -/
structure Environment where
  scopes : List (SortedMap String Declaration)
  made : Nat
  deriving Repr, DecidableEq

namespace Environment

/-- The declaration of a name in the innermost scope that has one. -/
def visible? (env : Environment) (name : String) : Option Declaration :=
  env.scopes.findSome? fun scope => scope.find? name

/-- The declaration of a name in the innermost scope. -/
def here? (env : Environment) (name : String) : Option Declaration :=
  env.scopes.head?.bind fun scope => scope.find? name

/-- Declare a name in the innermost scope. -/
def declare (env : Environment) (name : String) (kind : SymbolKind) (span : Span) : Environment :=
  match env.scopes with
  | [] => env
  | scope :: outer => ⟨scope.insert name ⟨env.made, name, kind, span⟩ :: outer, env.made + 1⟩

/-- The environment in a fresh scope. -/
def inner (env : Environment) : Environment := ⟨.empty :: env.scopes, env.made⟩

/-- The environment behind a block, where the declarations of the block are not seen. -/
def behind (env inside : Environment) : Environment := ⟨env.scopes, inside.made⟩

/-- The environment in which a module starts. -/
def initial : Environment :=
  Builtin.names.foldl (fun env name => env.declare name .builtin .zero) ⟨[.empty], 0⟩

end Environment

/-! ## The checker -/

/-- The faults of a part of a module and the declarations of the names it uses, in the order of the
text. -/
structure Findings where
  faults : List LocatedScopeFault
  uses : List (Nat × Declaration)
  deriving Repr, DecidableEq

namespace Findings

/-- Nothing is found. -/
def nothing : Findings := ⟨[], []⟩

/-- One fault. -/
def fault (fault : ScopeFault) (span : Span) : Findings := ⟨[⟨fault, span⟩], []⟩

/-- One fault under a condition. -/
def faultIf (condition : Bool) (fault : ScopeFault) (span : Span) : Findings :=
  if condition then .fault fault span else nothing

/-- One use of a name. -/
def use (node : Nat) (d : Declaration) : Findings := ⟨[], [(node, d)]⟩

instance : Append Findings := ⟨fun f g => ⟨f.faults ++ g.faults, f.uses ++ g.uses⟩⟩

@[simp] theorem faults_append (f g : Findings) : (f ++ g).faults = f.faults ++ g.faults := rfl

@[simp] theorem uses_append (f g : Findings) : (f ++ g).uses = f.uses ++ g.uses := rfl

end Findings

namespace Environment

/-- Check a variable that is used. -/
def reference (env : Environment) (node : Nat) (name : String) (span : Span) : Findings :=
  match env.visible? name with
  | some d => .use node d
  | none => .fault (.undeclaredVariable name) span

/-- Check a function that is called with a number of arguments. -/
def call (env : Environment) (node : Nat) (name : String) (args : Nat) (span : Span) : Findings :=
  match env.visible? name with
  | none => .fault (.undeclaredFunction name) span
  | some d =>
    match d.kind with
    | .function params =>
      if params.length = args then .use node d
      else .fault (.arityMismatch name params.length args) span
    | .builtin => .use node d
    | .variable => .fault (.notCallable name) span

mutual

/-- Check an expression. -/
def expr (env : Environment) : Expr → Findings
  | .literal _ _ => .nothing
  | .name span id x => env.reference id x span
  | .binary _ _ left right => env.expr left ++ env.expr right
  | .not _ operand => env.expr operand
  | .call span id f args => env.exprs args ++ env.call id f args.length span

/-- Check expressions in turn. -/
def exprs (env : Environment) : List Expr → Findings
  | [] => .nothing
  | e :: rest => env.expr e ++ env.exprs rest

end

/-- Check an expression that may be missing. -/
def expr? (env : Environment) : Option Expr → Findings
  | none => .nothing
  | some e => env.expr e

/-- Check a declaration: the innermost scope must not have the name, and keeps the declaration it
has. -/
def declaration (env : Environment) (name : String) (kind : SymbolKind) (span : Span)
    (fault : ScopeFault) : Findings × Environment :=
  match env.here? name with
  | some _ => (.fault fault span, env)
  | none => (.nothing, env.declare name kind span)

/-- Check the parameters of a function. -/
def parameters (env : Environment) (function : String) (span : Span) :
    List String → Findings × Environment
  | [] => (.nothing, env)
  | p :: rest =>
    let first := env.declaration p .variable span (.duplicateParameter p function)
    let others := first.2.parameters function span rest
    (first.1 ++ others.1, others.2)

mutual

/-- Check a statement. -/
def stmt (env : Environment) (around : Surroundings) : Stmt → Findings × Environment
  | .letStmt span name value =>
    let declared := env.declaration name .variable span (.duplicateVariable name)
    (env.expr? value ++ declared.1, declared.2)
  | .fnStmt span name params body =>
    let nested := Findings.faultIf (env.scopes.length != 1) (.nestedFunction name) span
    let declared := env.declaration name (.function params) span (.duplicateFunction name)
    let entered := declared.2.inner.parameters name span params
    let inside := entered.2.block ⟨0, true⟩ body
    (nested ++ declared.1 ++ entered.1 ++ inside.1, declared.2.behind inside.2)
  | .returnStmt span value =>
    (.faultIf (!around.inFunction) .returnOutsideFunction span ++ env.expr? value, env)
  | .breakStmt span => (.faultIf (around.loops == 0) .breakOutsideLoop span, env)
  | .continueStmt span => (.faultIf (around.loops == 0) .continueOutsideLoop span, env)
  | .ifStmt _ cond body =>
    let inside := env.inner.block around body
    (env.expr cond ++ inside.1, env.behind inside.2)
  | .ifElseStmt _ cond body other =>
    let inside := env.inner.block around body
    let otherwise := (env.behind inside.2).inner.block around other
    (env.expr cond ++ inside.1 ++ otherwise.1, env.behind otherwise.2)
  | .whileStmt _ cond body =>
    let inside := env.inner.block { around with loops := around.loops + 1 } body
    (env.expr cond ++ inside.1, env.behind inside.2)
  | .exprStmt _ value => (env.expr value, env)

/-- Check statements in turn. -/
def block (env : Environment) (around : Surroundings) : List Stmt → Findings × Environment
  | [] => (.nothing, env)
  | s :: rest =>
    let first := env.stmt around s
    let others := first.2.block around rest
    (first.1 ++ others.1, others.2)

end

end Environment

/-- What the checker finds in a module. -/
def Module.check (m : Module) : Findings := (Environment.initial.block ⟨0, false⟩ m.body).1

/-! ## Symbol tables and environments -/

namespace SortedMap

variable {κ α β : Type}

/-- Looking a key up after changing all values. -/
theorem find?_map [DecidableEq κ] (f : α → β) (m : SortedMap κ α) (k : κ) :
    (m.map f).find? k = (m.find? k).map f := by
  obtain ⟨es⟩ := m
  show (es.map _).lookup k = (es.lookup k).map f
  induction es with
  | nil => rfl
  | cons e es ih =>
    rw [List.map_cons, lookup_entry_cons, ih]
    show _ = (((e.1, e.2) :: es).lookup k).map f
    rw [lookup_entry_cons]
    split <;> rfl

/-- Changing all values after one is put in. -/
theorem map_insert [DecidableEq κ] [LT κ] [DecidableLT κ] (f : α → β) (m : SortedMap κ α) (k : κ)
    (v : α) : (m.insert k v).map f = (m.map f).insert k (f v) := by
  obtain ⟨es⟩ := m
  show SortedMap.mk ((insertEntry k v es).map _) = ⟨insertEntry k (f v) (es.map _)⟩
  congr 1
  induction es with
  | nil => rfl
  | cons e es ih =>
    rw [List.map_cons, insertEntry, insertEntry]
    split
    · rfl
    · split
      · rfl
      · rw [List.map_cons, ih]

end SortedMap

namespace SymbolTable

/-- A table has a symbol for a declaration, at the index that is the number of the declaration. -/
def Declares (t : SymbolTable) (d : Declaration) : Prop :=
  ∃ scope, t.symbols[d.number]? = some ⟨d.name, d.kind, d.span, scope⟩

/-- The scopes that can be seen in a table are those of an environment. -/
structure Shows (t : SymbolTable) (env : Environment) : Prop where
  wf : t.WF
  made : t.symbols.size = env.made
  scopes : t.chain.map Scope.symbols = env.scopes.map (·.map Declaration.number)
  /-- Only the outermost scope is global. -/
  kinds : ∀ s rest, s :: rest <:+ t.chain → (s.kind = .global ↔ rest = [])
  declares : ∀ scope ∈ env.scopes, ∀ name d, scope.find? name = some d → t.Declares d

namespace Shows

variable {t : SymbolTable} {env : Environment}

/-- There is a current scope. -/
theorem exists_scopes (h : t.Shows env) : ∃ s rest scope outer, t.chain = s :: rest ∧
    env.scopes = scope :: outer ∧ s.symbols = scope.map Declaration.number ∧
    rest.map Scope.symbols = outer.map (·.map Declaration.number) := by
  have hscopes := h.scopes
  obtain ⟨s, rest, hchain⟩ := h.wf.exists_chain
  cases henv : env.scopes with
  | nil =>
    rw [hchain, henv] at hscopes
    cases hscopes
  | cons scope outer =>
    rw [hchain, henv] at hscopes
    obtain ⟨hfirst, hrest⟩ := List.cons.inj hscopes
    exact ⟨s, rest, scope, outer, hchain, rfl, hfirst, hrest⟩

/-- A name is looked up as in the environment. -/
theorem lookup_eq (h : t.Shows env) (name : String) :
    t.lookup name = (env.visible? name).map Declaration.number := by
  rw [t.lookup_eq, Environment.visible?]
  have hscopes := h.scopes
  generalize t.chain = chain at hscopes
  generalize env.scopes = scopes at hscopes ⊢
  induction chain generalizing scopes with
  | nil =>
    cases scopes with
    | nil => rfl
    | cons scope outer => cases hscopes
  | cons s rest ih =>
    cases scopes with
    | nil => cases hscopes
    | cons scope outer =>
      obtain ⟨hfirst, hrest⟩ := List.cons.inj hscopes
      rw [List.findSome?_cons, List.findSome?_cons, hfirst, SortedMap.find?_map]
      cases scope.find? name with
      | none => exact ih outer hrest
      | some d => rfl

/-- What the innermost scope of a table has under a name is the number of the declaration there. -/
theorem lookupLocal_eq (h : t.Shows env) (name : String) :
    t.lookupLocal name = (env.here? name).map Declaration.number := by
  obtain ⟨s, rest, scope, outer, hchain, henv, hsymbols, -⟩ := h.exists_scopes
  rw [t.lookupLocal_eq, hchain, Environment.here?, henv, List.head?_cons, List.head?_cons,
    Option.bind_some, Option.bind_some, hsymbols, SortedMap.find?_map]

/-- The current scope is global exactly if the environment has one scope. -/
theorem currentKind_eq (h : t.Shows env) :
    (t.currentKind != .global) = (env.scopes.length != 1) := by
  obtain ⟨s, rest, scope, outer, hchain, henv, -, hrest⟩ := h.exists_scopes
  have hlength := congrArg List.length hrest
  rw [List.length_map, List.length_map] at hlength
  have hkind := h.kinds s rest (hchain ▸ List.suffix_refl _)
  rw [t.currentKind_eq, hchain, henv, List.head?_cons, List.length_cons, ← hlength]
  show (s.kind != .global) = (rest.length + 1 != 1)
  rw [Bool.eq_iff_iff, bne_iff_ne, bne_iff_ne, ne_eq, hkind, ← List.length_eq_zero_iff]
  omega

/-- A declaration that can be seen has its symbol. -/
theorem declares_of_visible? (h : t.Shows env) {name : String} {d : Declaration}
    (hd : env.visible? name = some d) : t.Declares d := by
  obtain ⟨scope, hscope, hfind⟩ := List.exists_of_findSome?_eq_some hd
  exact h.declares scope hscope name d hfind

/-- Defining a symbol in a table is declaring the name in the environment that it shows. -/
theorem define (h : t.Shows env) (name : String) (kind : SymbolKind) (span : Span) :
    (t.define name kind span).Shows (env.declare name kind span) := by
  obtain ⟨s, rest, scope, outer, hchain, henv, hsymbols, hrest⟩ := h.exists_scopes
  have hchain' := chain_define h.wf hchain name kind span
  have henv' : env.declare name kind span =
      ⟨scope.insert name ⟨env.made, name, kind, span⟩ :: outer, env.made + 1⟩ := by
    rw [Environment.declare, henv]
  -- Symbols are only added, so all declarations keep theirs.
  have hold : ∀ {d : Declaration}, t.Declares d → (t.define name kind span).Declares d := by
    rintro d ⟨i, hi⟩
    exact ⟨i, Program.getElem?_push_of_eq_some hi⟩
  rw [henv']
  refine ⟨h.wf.define name kind span, ?_, ?_, ?_, ?_⟩
  · show (t.symbols.push _).size = env.made + 1
    rw [Array.size_push, h.made]
  · rw [hchain', List.map_cons, List.map_cons, hrest, SortedMap.map_insert, ← hsymbols, h.made]
  · intro u rest' hsuffix
    rw [hchain'] at hsuffix
    -- Only the first scope of the chain has changed, and it is still of the same kind.
    rcases List.suffix_cons_iff.mp hsuffix with heq | hsuffix
    · obtain ⟨rfl, rfl⟩ := List.cons.inj heq
      exact h.kinds s rest' (hchain ▸ List.suffix_refl _)
    · exact h.kinds u rest' (by rw [hchain]; exact hsuffix.trans (List.suffix_cons ..))
  · intro scope' hscope' name' d hfind
    rcases List.mem_cons.mp hscope' with rfl | hscope'
    · rw [SortedMap.find?_insert] at hfind
      by_cases hname : name' = name
      · rw [if_pos hname] at hfind
        cases hfind
        refine ⟨t.current, ?_⟩
        show (t.symbols.push _)[env.made]? = _
        rw [← h.made]
        exact Array.getElem?_push_size
      · rw [if_neg hname] at hfind
        exact hold (h.declares scope (by rw [henv]; exact List.mem_cons_self ..) name' d hfind)
    · exact hold (h.declares scope' (by rw [henv]; exact List.mem_cons_of_mem _ hscope') name' d
        hfind)

/-- A scope that is entered is shown as a fresh one around the place. -/
theorem enter (h : t.Shows env) (kind : ScopeKind) (hkind : kind ≠ .global) :
    (t.enter kind).Shows env.inner := by
  have hchain := chain_enter h.wf kind
  refine ⟨h.wf.enter kind, h.made, ?_, ?_, ?_⟩
  · rw [hchain, List.map_cons, h.scopes]
    rfl
  · intro u rest hsuffix
    rw [hchain] at hsuffix
    rcases List.suffix_cons_iff.mp hsuffix with heq | hsuffix
    · obtain ⟨rfl, rfl⟩ := List.cons.inj heq
      obtain ⟨s, rest, -, -, hrest, -⟩ := h.exists_scopes
      rw [hrest]
      exact iff_of_false hkind nofun
    · exact h.kinds u rest hsuffix
  · intro scope hscope name d hfind
    rcases List.mem_cons.mp hscope with rfl | hscope
    · cases hfind
    · exact h.declares scope hscope name d hfind

/-- Closing a scope shows the environment again in which it was opened. -/
theorem exit {inside : Environment} (h : t.Shows inside) (hscopes : inside.scopes.tail = env.scopes)
    (hne : env.scopes ≠ []) : t.exit.Shows (env.behind inside) := by
  obtain ⟨s, rest, scope, outer, hchain, hinside, -, hrest⟩ := h.exists_scopes
  rw [hinside, List.tail_cons] at hscopes
  subst hscopes
  obtain ⟨u, rest', rfl⟩ : ∃ u rest', rest = u :: rest' := by
    cases rest with
    | nil => exact absurd (List.map_eq_nil_iff.mp hrest.symm) hne
    | cons u rest' => exact ⟨u, rest', rfl⟩
  obtain ⟨hexit, hwf, hsymbols⟩ := chain_exit h.wf hchain
  refine ⟨hwf, ?_, ?_, ?_, ?_⟩
  · rw [hsymbols]
    exact h.made
  · rw [hexit]
    exact hrest
  · intro v rest'' hsuffix
    rw [hexit] at hsuffix
    exact h.kinds v rest'' (by rw [hchain]; exact hsuffix.trans (List.suffix_cons ..))
  · intro scope' hscope' name d hfind
    have hd := h.declares scope' (by rw [hinside]; exact List.mem_cons_of_mem _ hscope') name d
      hfind
    rwa [Declares, ← hsymbols] at hd

/-- A table that nothing was done to shows one scope without declarations. -/
theorem blank : SymbolTable.blank.Shows ⟨[.empty], 0⟩ := by
  refine ⟨.blank, rfl, ?_, ?_, ?_⟩
  · rw [chain_blank]
    rfl
  · intro s rest hsuffix
    rw [chain_blank] at hsuffix
    rcases List.suffix_cons_iff.mp hsuffix with heq | hsuffix
    · obtain ⟨rfl, rfl⟩ := List.cons.inj heq
      exact iff_of_true rfl rfl
    · cases List.suffix_nil.mp hsuffix
  · intro scope hscope name d hfind
    rw [List.mem_singleton.mp hscope] at hfind
    cases hfind

/-- A module starts with the built-in functions on both sides. -/
theorem initial : SymbolTable.initial.Shows Environment.initial := by
  have hnames : ∀ (names : List String) {t : SymbolTable} {env : Environment}, t.Shows env →
      (names.foldl (fun t name => t.define name .builtin .zero) t).Shows
        (names.foldl (fun env name => env.declare name .builtin .zero) env) := by
    intro names
    induction names with
    | nil => exact fun h => h
    | cons name names ih => exact fun h => ih (h.define name .builtin .zero)
  exact hnames Builtin.names blank

end Shows

end SymbolTable

/-! ## The scopes around stay as they are -/

namespace Environment

/-- A declaration changes only the innermost scope. -/
theorem tail_declare (env : Environment) (name : String) (kind : SymbolKind) (span : Span) :
    (env.declare name kind span).scopes.tail = env.scopes.tail := by
  unfold declare
  split
  · rfl
  · next hscopes => rw [hscopes]; rfl

/-- Checking a declaration changes only the innermost scope, whether it is refused or not. -/
theorem tail_declaration (env : Environment) (name : String) (kind : SymbolKind) (span : Span)
    (fault : ScopeFault) :
    (env.declaration name kind span fault).2.scopes.tail = env.scopes.tail := by
  unfold declaration
  split
  · rfl
  · exact tail_declare env name kind span

/-- Parameters are declared in the innermost scope. -/
theorem tail_parameters (function : String) (span : Span) : ∀ (params : List String)
    (env : Environment), (env.parameters function span params).2.scopes.tail = env.scopes.tail
  | [], env => rfl
  | p :: rest, env => by
    rw [parameters, tail_parameters function span rest, tail_declaration]

/-- A statement leaves the scopes around its own as they are. -/
theorem tail_stmt (env : Environment) (around : Surroundings) (s : Stmt) :
    (env.stmt around s).2.scopes.tail = env.scopes.tail := by
  cases s with
  | letStmt span name value => rw [stmt]; exact tail_declaration ..
  | fnStmt span name params body => rw [stmt]; exact tail_declaration ..
  | ifStmt span cond body => rw [stmt]; rfl
  | ifElseStmt span cond body other => rw [stmt]; rfl
  | whileStmt span cond body => rw [stmt]; rfl
  | returnStmt span value => rw [stmt]
  | breakStmt span => rw [stmt]
  | continueStmt span => rw [stmt]
  | exprStmt span value => rw [stmt]

/-- A block leaves the scopes around its own as they are. -/
theorem tail_block (around : Surroundings) : ∀ (ss : List Stmt) (env : Environment),
    (env.block around ss).2.scopes.tail = env.scopes.tail
  | [], env => by rw [block]
  | s :: rest, env => by rw [block, tail_block around rest, tail_stmt]

end Environment

/-! ## The walk follows the checker -/

/-- Bind uses of names to the numbers of their declarations, one after the other. -/
def Walk.bindUses (bindings : SortedMap Nat Nat) (uses : List (Nat × Declaration)) :
    SortedMap Nat Nat :=
  uses.foldl (fun b u => b.insert u.1 u.2.number) bindings

namespace Walk

/-- A walk has come from one state to another in the way that some findings say, and its table shows
an environment. -/
structure Follows (w' w : Walk) (f : Findings) (env : Environment) : Prop where
  shows : w'.table.Shows env
  faults : w'.faults = w.faults ++ f.faults
  bindings : w'.found.bindings = bindUses w.found.bindings f.uses
  /-- No symbol is lost. -/
  grows : ∀ {d : Declaration}, w.table.Declares d → w'.table.Declares d
  /-- Every use is one of a declaration that has a symbol. -/
  uses : ∀ u ∈ f.uses, w'.table.Declares u.2

variable {w w' w'' : Walk} {f g : Findings} {env env' env'' : Environment}

namespace Follows

/-- Nothing is found. -/
theorem nothing (h : w.table.Shows env) : w.Follows w .nothing env :=
  ⟨h, (List.append_nil _).symm, rfl, fun hd => hd, nofun⟩

/-- Two steps of a walk one after the other. -/
theorem append (h : w'.Follows w f env) (h' : w''.Follows w' g env') :
    w''.Follows w (f ++ g) env' := by
  refine ⟨h'.shows, ?_, ?_, fun hd => h'.grows (h.grows hd), ?_⟩
  · rw [h'.faults, h.faults, Findings.faults_append, List.append_assoc]
  · rw [h'.bindings, h.bindings, Findings.uses_append, bindUses, bindUses, bindUses,
      List.foldl_append]
  · intro u hu
    rcases List.mem_append.mp hu with hu | hu
    · exact h'.grows (h.uses u hu)
    · exact h'.uses u hu

theorem report (h : w.table.Shows env) (fault : ScopeFault) (span : Span) :
    (w.report fault span).Follows w (.fault fault span) env :=
  ⟨h, rfl, rfl, fun hd => hd, nofun⟩

/-- A walk that reports a fault under a condition finds it under this condition. -/
theorem reportIf (h : w.table.Shows env) (condition : Bool) (fault : ScopeFault) (span : Span) :
    (w.reportIf condition fault span).Follows w (.faultIf condition fault span) env := by
  cases condition with
  | true => exact report h fault span
  | false => exact nothing h

/-- A walk that binds a use finds the use of that declaration. -/
theorem bind (h : w.table.Shows env) (node : Nat) {d : Declaration} (hd : w.table.Declares d) :
    (w.bind node d.number).Follows w (.use node d) env := by
  refine ⟨h, (List.append_nil _).symm, rfl, fun hd => hd, ?_⟩
  intro u hu
  rw [List.mem_singleton.mp hu]
  exact hd

/-- Work on the table alone. -/
theorem withTable (h : w'.Follows w f env) {t : SymbolTable} (ht : t.Shows env')
    (hgrows : ∀ {d : Declaration}, w'.table.Declares d → t.Declares d) :
    (w'.withTable t).Follows w f env' :=
  ⟨ht, h.faults, h.bindings, fun hd => hgrows (h.grows hd), fun u hu => hgrows (h.uses u hu)⟩

theorem enter (h : w'.Follows w f env) (kind : ScopeKind) (hkind : kind ≠ .global) :
    (w'.enter kind).Follows w f env.inner :=
  h.withTable (h.shows.enter kind hkind) fun hd => hd

/-- Leaving a scope finds nothing, and the declarations made inside of it are not seen behind it. -/
theorem exit {inside : Environment} (h : w'.Follows w f inside)
    (hscopes : inside.scopes.tail = env.scopes) (hne : env.scopes ≠ []) :
    w'.exit.Follows w f (env.behind inside) := by
  refine h.withTable (h.shows.exit hscopes hne) ?_
  rintro d ⟨i, hi⟩
  refine ⟨i, ?_⟩
  rw [SymbolTable.symbols_exit]
  exact hi

end Follows

/-- A walk that declares a name finds what the check of the declaration finds. -/
theorem follows_declare (h : w.table.Shows env) (name : String) (kind : SymbolKind) (span : Span)
    (fault : ScopeFault) :
    (w.declare name kind span fault).Follows w (env.declaration name kind span fault).1
      (env.declaration name kind span fault).2 := by
  unfold declare Environment.declaration
  rw [h.lookupLocal_eq]
  cases env.here? name with
  | some d => exact .report h fault span
  | none =>
    refine (Follows.nothing h).withTable (h.define name kind span) ?_
    rintro d ⟨i, hi⟩
    exact ⟨i, Program.getElem?_push_of_eq_some hi⟩

/-- A walk over the parameters of a function finds what their check finds. -/
theorem follows_parameters (function : String) (span : Span) : ∀ (params : List String) {w : Walk}
    {env : Environment}, w.table.Shows env →
    (w.parameters function params span).Follows w (env.parameters function span params).1
      (env.parameters function span params).2
  | [], w, env, h => .nothing h
  | p :: rest, w, env, h => by
    have hfirst := follows_declare h p .variable span (.duplicateParameter p function)
    exact hfirst.append (follows_parameters function span rest hfirst.shows)

/-- A walk over the use of a variable finds what its check finds. -/
theorem follows_useVariable (h : w.table.Shows env) (node : Nat) (name : String) (span : Span) :
    (w.useVariable node name span).Follows w (env.reference node name span) env := by
  unfold useVariable Environment.reference
  rw [h.lookup_eq]
  cases hvisible : env.visible? name with
  | none => exact .report h _ span
  | some d => exact .bind h node (h.declares_of_visible? hvisible)

/-- A walk over a call finds what its check finds. -/
theorem follows_useFunction (h : w.table.Shows env) (node : Nat) (name : String) (args : Nat)
    (span : Span) :
    (w.useFunction node name args span).Follows w (env.call node name args span) env := by
  unfold useFunction Environment.call
  rw [h.lookup_eq]
  cases hvisible : env.visible? name with
  | none => exact .report h _ span
  | some d =>
    have hd := h.declares_of_visible? hvisible
    obtain ⟨i, hsymbol⟩ := hd
    have hkind : (w.table.symbols[d.number]?).map Symbol.kind = some d.kind := by rw [hsymbol]; rfl
    simp only [Option.map_some, hkind]
    cases d.kind with
    | «variable» => exact .report h _ span
    | builtin => exact .bind h node ⟨i, hsymbol⟩
    | function params =>
      dsimp only
      split
      · exact .bind h node ⟨i, hsymbol⟩
      · exact .report h _ span

mutual

/-- A walk over an expression finds what its check finds, and declares nothing. -/
theorem follows_expr : ∀ (e : Expr) {w : Walk} {env : Environment}, w.table.Shows env →
    (w.expr e).Follows w (env.expr e) env
  | .literal _ _, w, env, h => by
    rw [expr, Environment.expr]
    exact .nothing h
  | .name span id x, w, env, h => by
    rw [expr, Environment.expr]
    exact follows_useVariable h id x span
  | .binary _ _ left right, w, env, h => by
    rw [expr, Environment.expr]
    have hleft := follows_expr left h
    exact hleft.append (follows_expr right hleft.shows)
  | .not _ operand, w, env, h => by
    rw [expr, Environment.expr]
    exact follows_expr operand h
  | .call span id f args, w, env, h => by
    rw [expr, Environment.expr]
    have hargs := follows_exprs args h
    exact hargs.append (follows_useFunction hargs.shows id f args.length span)

/-- A walk over some expressions finds what their check finds, and declares nothing. -/
theorem follows_exprs : ∀ (es : List Expr) {w : Walk} {env : Environment}, w.table.Shows env →
    (w.exprs es).Follows w (env.exprs es) env
  | [], w, env, h => by
    rw [exprs, Environment.exprs]
    exact .nothing h
  | e :: rest, w, env, h => by
    rw [exprs, Environment.exprs]
    have he := follows_expr e h
    exact he.append (follows_exprs rest he.shows)

end

/-- The same for a value that may be missing. -/
theorem follows_expr? (h : w.table.Shows env) : ∀ e : Option Expr,
    (w.expr? e).Follows w (env.expr? e) env
  | none => .nothing h
  | some e => follows_expr e h

/-- Walking over a block in a fresh scope, if walking over the block follows the checker. -/
theorem Follows.scoped (h : w'.Follows w f env) {around : Surroundings} {body : List Stmt}
    (hbody : ∀ {w : Walk} {env : Environment}, w.table.Shows env →
      (w.block around body).Follows w (env.block around body).1 (env.block around body).2) :
    ((w'.enter .block).block around body).exit.Follows w (f ++ (env.inner.block around body).1)
      (env.behind (env.inner.block around body).2) := by
  obtain ⟨-, -, scope, outer, -, hscopes, -⟩ := h.shows.exists_scopes
  have hentered := h.enter .block (by decide)
  refine (hentered.append (hbody hentered.shows)).exit (Environment.tail_block ..) ?_
  rw [hscopes]
  exact List.cons_ne_nil _ _

mutual

/-- Walking over a statement follows the checker. -/
theorem follows_stmt (around : Surroundings) : ∀ (s : Stmt) {w : Walk} {env : Environment},
    w.table.Shows env →
    (w.stmt around s).Follows w (env.stmt around s).1 (env.stmt around s).2
  | .letStmt span name value, w, env, h => by
    rw [stmt, Environment.stmt]
    have hvalue := follows_expr? h value
    exact hvalue.append (follows_declare hvalue.shows name .variable span _)
  | .fnStmt span name params body, w, env, h => by
    rw [stmt, Environment.stmt, h.currentKind_eq]
    have hnested := Follows.reportIf h (env.scopes.length != 1) (.nestedFunction name) span
    have hdeclared := hnested.append
      (follows_declare hnested.shows name (.function params) span (.duplicateFunction name))
    obtain ⟨-, -, scope, outer, -, hscopes, -⟩ := hdeclared.shows.exists_scopes
    have hentered := hdeclared.enter .function (by decide)
    have hparams := hentered.append (follows_parameters name span params hentered.shows)
    have hbody := hparams.append (follows_block ⟨0, true⟩ body hparams.shows)
    refine hbody.exit ?_ (hscopes ▸ List.cons_ne_nil _ _)
    rw [Environment.tail_block, Environment.tail_parameters]
    rfl
  | .returnStmt span value, w, env, h => by
    rw [stmt, Environment.stmt]
    have hreport := Follows.reportIf h (!around.inFunction) .returnOutsideFunction span
    exact hreport.append (follows_expr? hreport.shows value)
  | .breakStmt span, w, env, h => by
    rw [stmt, Environment.stmt]
    exact .reportIf h _ _ span
  | .continueStmt span, w, env, h => by
    rw [stmt, Environment.stmt]
    exact .reportIf h _ _ span
  | .ifStmt _ cond body, w, env, h => by
    rw [stmt, Environment.stmt]
    exact (follows_expr cond h).scoped (follows_block around body)
  | .ifElseStmt _ cond body other, w, env, h => by
    rw [stmt, Environment.stmt]
    exact ((follows_expr cond h).scoped (follows_block around body)).scoped
      (follows_block around other)
  | .whileStmt _ cond body, w, env, h => by
    rw [stmt, Environment.stmt]
    exact (follows_expr cond h).scoped (follows_block _ body)
  | .exprStmt _ value, w, env, h => by
    rw [stmt, Environment.stmt]
    exact follows_expr value h

/-- A walk over a block finds what its check finds, and comes to the environment behind the
block. -/
theorem follows_block (around : Surroundings) : ∀ (ss : List Stmt) {w : Walk} {env : Environment},
    w.table.Shows env →
    (w.block around ss).Follows w (env.block around ss).1 (env.block around ss).2
  | [], w, env, h => by
    rw [block, Environment.block]
    exact .nothing h
  | s :: rest, w, env, h => by
    rw [block, Environment.block]
    have hs := follows_stmt around s h
    exact hs.append (follows_block around rest hs.shows)

end

end Walk

end Scriptlet
