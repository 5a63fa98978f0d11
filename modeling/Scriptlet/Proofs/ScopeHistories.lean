import Mathlib.Data.List.Chain
import Mathlib.Data.List.Find
import Mathlib.Data.Set.Defs
import Scriptlet.Proofs.ScopePaths

/-!
# Symbol tables after any history

A symbol table is changed by opening a scope, closing one and declaring a name.  Whatever is done to
the table in which a module starts, its scopes keep their order, every scope knows the latest symbol
of each name that was declared in it, and a name is looked up in the nearest scope that has one
(`SymbolTable.Ordered`).  What happens in a scope between its opening and its closing cannot be seen
from outside, however many scopes are opened and closed on the way (`SymbolTable.perform_scoped`).
-/

namespace Scriptlet

/-! ## Actions -/

/-- What can be done to a symbol table. -/
inductive TableAction where
  | enter (kind : ScopeKind)
  | exit
  | define (name : String) (kind : SymbolKind) (span : Span)
  deriving Repr, DecidableEq

namespace TableAction

/-- How many scopes are open after some actions if `d` are open before, unless more are closed. -/
def level : Nat → List TableAction → Option Nat
  | d, [] => some d
  | d, .enter _ :: rest => level (d + 1) rest
  | 0, .exit :: _ => none
  | d + 1, .exit :: rest => level d rest
  | d, .define _ _ _ :: rest => level d rest

/-- Actions that start by opening a scope, end by closing it again, and close no scope between that
they have not opened. -/
def Bracketed (actions : List TableAction) : Prop :=
  ∃ kind inner, actions = .enter kind :: (inner ++ [.exit]) ∧ level 0 inner = some 0

end TableAction

namespace SymbolTable

/-- Carry out an action. -/
def act (t : SymbolTable) : TableAction → SymbolTable
  | .enter kind => t.enter kind
  | .exit => t.exit
  | .define name kind span => t.define name kind span

/-- Carry out some actions in turn. -/
def perform (t : SymbolTable) (actions : List TableAction) : SymbolTable := actions.foldl act t

/-- The symbols that some actions declare, each in the scope in which the table then stands. -/
def newSymbols (t : SymbolTable) : List TableAction → List Symbol
  | [] => []
  | .define name kind span :: rest =>
    ⟨name, kind, span, t.current⟩ :: (t.define name kind span).newSymbols rest
  | a :: rest => (t.act a).newSymbols rest

/-- The symbol of a name that was declared last in a scope. -/
def latest? (t : SymbolTable) (name : String) (scope : Nat) : Option Nat :=
  (List.range t.symbols.size).reverse.find? fun id =>
    t.symbols[id]?.any fun symbol => symbol.name == name && symbol.scope == scope

/-- The names that can be seen from the current scope. -/
def visible (t : SymbolTable) : Set String :=
  {name | ∃ scope ∈ t.chain, ∃ id, scope.symbols.find? name = some id}

variable {t u : SymbolTable}

@[simp] theorem perform_nil (t : SymbolTable) : t.perform [] = t := rfl

@[simp] theorem perform_cons (t : SymbolTable) (a : TableAction) (rest : List TableAction) :
    t.perform (a :: rest) = (t.act a).perform rest := rfl

/-- Actions one after the other. -/
theorem perform_append (t : SymbolTable) (actions rest : List TableAction) :
    t.perform (actions ++ rest) = (t.perform actions).perform rest := by
  rw [perform, List.foldl_append]
  rfl

/-- Declared symbols are kept in the order of their declarations. -/
theorem symbols_perform (actions : List TableAction) (t : SymbolTable) :
    (t.perform actions).symbols.toList = t.symbols.toList ++ t.newSymbols actions := by
  induction actions generalizing t with
  | nil => rw [perform_nil, newSymbols, List.append_nil]
  | cons a rest ih =>
    rw [perform_cons, ih]
    cases a with
    | enter kind => rfl
    | exit =>
      show t.exit.symbols.toList ++ _ = _
      rw [symbols_exit]
      rfl
    | define name kind span =>
      show (t.symbols.push _).toList ++ _ = _
      rw [Array.toList_push, List.append_assoc]
      rfl

/-! ## The order of a table -/

/-- A declaration is the latest of its name in the current scope, and hides no other. -/
theorem latest?_define (t : SymbolTable) (name : String) (kind : SymbolKind) (span : Span)
    (n : String) (i : Nat) :
    (t.define name kind span).latest? n i =
      if name = n ∧ t.current = i then some t.symbols.size else t.latest? n i := by
  have hold : ∀ id ∈ (List.range t.symbols.size).reverse,
      (t.symbols.push ⟨name, kind, span, t.current⟩)[id]? = t.symbols[id]? := by
    intro id hid
    have hlt := List.mem_range.mp (List.mem_reverse.mp hid)
    rw [Array.getElem?_push, if_neg (Nat.ne_of_lt hlt)]
  show ((List.range (t.symbols.push _).size).reverse.find? fun id =>
    (t.symbols.push _)[id]?.any _) = _
  rw [Array.size_push, List.range_succ, List.reverse_append, List.reverse_singleton,
    List.singleton_append, List.find?_cons, Array.getElem?_push_size, Option.any_some]
  dsimp only
  by_cases hnew : name = n ∧ t.current = i
  · rw [if_pos hnew, beq_iff_eq.mpr hnew.1, beq_iff_eq.mpr hnew.2]
    rfl
  · have hfalse : (name == n && t.current == i) = false := by
      rw [Bool.eq_false_iff]
      simpa using hnew
    rw [if_neg hnew, hfalse]
    exact List.find?_congr fun id hid => by rw [hold id hid]

/-- The scopes of a table are in order.  Only the first has none around it, and the others lie
behind the one around them; every name in a scope leads to a symbol of this name and scope, and to
the one that was declared last; and every symbol was declared in one of the scopes. -/
structure Ordered (t : SymbolTable) : Prop where
  filed : t.Filed
  declared : ∀ {id : Nat} {symbol : Symbol}, t.symbols[id]? = some symbol →
    symbol.scope < t.scopes.size
  root : ∀ {i : Nat} {scope : Scope}, t.scopes[i]? = some scope → (scope.parent = none ↔ i = 0)
  newest : ∀ {i : Nat} {scope : Scope} (name : String), t.scopes[i]? = some scope →
    scope.symbols.find? name = t.latest? name i

namespace Ordered

/-- A table with one scope and no names is in order. -/
theorem blank : blank.Ordered := by
  have honly : ∀ {i : Nat} {scope : Scope}, SymbolTable.blank.scopes[i]? = some scope →
      i = 0 ∧ scope = ⟨none, .global, .empty⟩ := by
    intro i scope hs
    obtain ⟨hlt, rfl⟩ := Array.getElem?_eq_some_iff.mp hs
    obtain rfl : i = 0 := by simpa [SymbolTable.blank] using hlt
    exact ⟨rfl, rfl⟩
  refine ⟨.blank, fun hsymbol => ?_, fun hs => ?_, fun name hs => ?_⟩
  · cases hsymbol
  · obtain ⟨rfl, rfl⟩ := honly hs
    exact iff_of_true rfl rfl
  · obtain ⟨rfl, rfl⟩ := honly hs
    rfl

/-- Nothing was declared in a scope that is not there yet. -/
theorem latest?_size (h : t.Ordered) (name : String) : t.latest? name t.scopes.size = none := by
  rw [latest?, List.find?_eq_none]
  intro id _ hany
  cases hsymbol : t.symbols[id]? with
  | none =>
    rw [hsymbol] at hany
    cases hany
  | some symbol =>
    rw [hsymbol, Option.any_some, Bool.and_eq_true, beq_iff_eq, beq_iff_eq] at hany
    exact Nat.ne_of_lt (h.declared hsymbol) hany.2

/-- A scope that is entered lies behind the one around it, and has no names. -/
theorem enter (h : t.Ordered) (kind : ScopeKind) : (t.enter kind).Ordered := by
  have hscope : ∀ {i scope}, (t.enter kind).scopes[i]? = some scope →
      i = t.scopes.size ∧ scope = ⟨some t.current, kind, .empty⟩ ∨ t.scopes[i]? = some scope := by
    intro i scope hs
    have hs : (t.scopes.push ⟨some t.current, kind, .empty⟩)[i]? = some scope := hs
    rw [Array.getElem?_push] at hs
    by_cases hi : i = t.scopes.size
    · rw [if_pos hi, Option.some_inj] at hs
      exact .inl ⟨hi, hs.symm⟩
    · rw [if_neg hi] at hs
      exact .inr hs
  refine ⟨h.filed.enter kind, fun {id symbol} hsymbol => ?_, fun {i scope} hs => ?_,
    fun {i scope} name hs => ?_⟩
  · show symbol.scope < (t.scopes.push _).size
    rw [Array.size_push]
    exact Nat.lt_succ_of_lt (h.declared hsymbol)
  · rcases hscope hs with ⟨rfl, rfl⟩ | hs
    · have hpos := h.filed.wf.current
      exact iff_of_false nofun (by omega)
    · exact h.root hs
  · rcases hscope hs with ⟨rfl, rfl⟩ | hs
    · exact (h.latest?_size name).symm
    · exact h.newest name hs

/-- Leaving a scope changes no scope. -/
theorem exit (h : t.Ordered) : t.exit.Ordered := by
  refine ⟨h.filed.exit, fun {id symbol} hsymbol => ?_, fun {i scope} hs => ?_,
    fun {i scope} name hs => ?_⟩
  · rw [symbols_exit] at hsymbol
    rw [scopes_exit]
    exact h.declared hsymbol
  · rw [scopes_exit] at hs
    exact h.root hs
  · rw [scopes_exit] at hs
    rw [latest?, symbols_exit]
    exact h.newest name hs

/-- A name leads to its new symbol, which is the last of this name in the scope. -/
theorem define (h : t.Ordered) (name : String) (kind : SymbolKind) (span : Span) :
    (t.define name kind span).Ordered := by
  -- A scope has its old parent, and its old names unless it is the current one.
  have hscope : ∀ {i scope}, (t.define name kind span).scopes[i]? = some scope →
      ∃ old, t.scopes[i]? = some old ∧ scope.parent = old.parent ∧ scope.symbols =
        if t.current = i then old.symbols.insert name t.symbols.size else old.symbols := by
    intro i scope hs
    have hs : (t.scopes.modify t.current _)[i]? = some scope := hs
    rw [Array.getElem?_modify] at hs
    by_cases hi : t.current = i
    · rw [if_pos hi] at hs
      obtain ⟨old, hold, rfl⟩ := Option.map_eq_some_iff.mp hs
      exact ⟨old, hold, rfl, (if_pos hi).symm⟩
    · rw [if_neg hi] at hs
      exact ⟨scope, hs, rfl, (if_neg hi).symm⟩
  refine ⟨h.filed.define name kind span, fun {id symbol} hsymbol => ?_, fun {i scope} hs => ?_,
    fun {i scope} n hs => ?_⟩
  · have hsymbol : (t.symbols.push _)[id]? = some symbol := hsymbol
    show symbol.scope < (t.scopes.modify _ _).size
    rw [Array.size_modify]
    rw [Array.getElem?_push] at hsymbol
    split at hsymbol
    · cases hsymbol
      exact h.filed.wf.current
    · exact h.declared hsymbol
  · obtain ⟨old, hold, hparent, -⟩ := hscope hs
    rw [hparent]
    exact h.root hold
  · obtain ⟨old, hold, -, hsymbols⟩ := hscope hs
    rw [hsymbols, latest?_define, ← h.newest n hold]
    by_cases hi : t.current = i
    · simp only [hi, if_true, and_true, SortedMap.find?_insert, eq_comm]
    · rw [if_neg hi, if_neg fun hnew => hi hnew.2]

/-- Every action keeps a table in order. -/
theorem act (h : t.Ordered) (a : TableAction) : (t.act a).Ordered := by
  cases a with
  | enter kind => exact h.enter kind
  | exit => exact h.exit
  | define name kind span => exact h.define name kind span

/-- A table stays in order through every history, by induction on the actions. -/
theorem perform (actions : List TableAction) (h : t.Ordered) : (t.perform actions).Ordered := by
  induction actions generalizing t with
  | nil => exact h
  | cons a rest ih => exact ih (h.act a)

/-- The table with the built-in functions is in order. -/
theorem initial : initial.Ordered := by
  have h := blank.perform (Builtin.names.map fun name => .define name .builtin .zero)
  rw [SymbolTable.perform, List.foldl_map] at h
  exact h

end Ordered

/-! ## Looking up -/

/-- The scope around a scope. -/
def parent? (t : SymbolTable) (i : Nat) : Option Nat := t.scopes[i]?.bind Scope.parent

/-- The path from a scope leads outwards along the scopes around it, to the first. -/
theorem Ordered.linked (h : t.Ordered) {i : Nat} (hi : i < t.scopes.size) :
    (i :: (t.chainFrom i).filterMap Scope.parent).IsChain (t.parent? · = some ·) ∧
      (i :: (t.chainFrom i).filterMap Scope.parent).getLast? = some 0 := by
  induction i using Nat.strongRecOn with
  | ind i ih =>
    have hs := Array.getElem?_eq_getElem hi
    rw [chainFrom_of_scope h.filed.wf hs]
    cases hparent : t.scopes[i].parent with
    | none =>
      rw [List.filterMap_cons_none hparent, (h.root hs).mp hparent]
      exact ⟨List.isChain_singleton _, rfl⟩
    | some parent =>
      rw [List.filterMap_cons_some hparent]
      have hlt := h.filed.wf.parent hs hparent
      obtain ⟨hlinked, hlast⟩ := ih parent hlt (Nat.lt_trans hlt hi)
      refine ⟨.cons_cons ?_ hlinked, ?_⟩
      · rw [parent?, hs]
        exact hparent
      · rw [List.getLast?_cons_cons]
        exact hlast

/-- A name leads to its latest symbol in the nearest scope that has one. -/
theorem Ordered.lookup_eq_latest (h : t.Ordered) (name : String) :
    t.lookup name = t.path.findSome? (t.latest? name) := by
  have hfrom : ∀ i < t.scopes.size, t.lookupFrom name i =
      (i :: (t.chainFrom i).filterMap Scope.parent).findSome? (t.latest? name) := by
    intro i hi
    rw [lookupFrom_eq]
    induction i using Nat.strongRecOn with
    | ind i ih =>
      have hs := Array.getElem?_eq_getElem hi
      rw [chainFrom_of_scope h.filed.wf hs, List.findSome?_cons, List.findSome?_cons,
        h.newest name hs]
      cases hparent : t.scopes[i].parent with
      | none =>
        rw [List.filterMap_cons_none hparent]
        rfl
      | some parent =>
        have hlt := h.filed.wf.parent hs hparent
        rw [List.filterMap_cons_some hparent]
        exact congrArg _ (funext fun _ => ih parent hlt (Nat.lt_trans hlt hi))
  exact hfrom t.current h.filed.wf.current

/-! ## Inside a scope -/

/-- From two tables the same can be seen. -/
structure SameView (u t : SymbolTable) : Prop where
  current : u.current = t.current
  visible : u.visible = t.visible
  lookup : ∀ name, u.lookup name = t.lookup name
  lookupLocal : ∀ name, u.lookupLocal name = t.lookupLocal name
  symbol : ∀ id < t.symbols.size, u.symbols[id]? = t.symbols[id]?

/-- What can be seen depends on the current scope, the chain and the symbols. -/
theorem SameView.of_chain (hcurrent : u.current = t.current) (hchain : u.chain = t.chain)
    (hsymbol : ∀ id < t.symbols.size, u.symbols[id]? = t.symbols[id]?) : u.SameView t where
  current := hcurrent
  visible := by rw [SymbolTable.visible, hchain, SymbolTable.visible]
  lookup name := by rw [lookup_eq, hchain, lookup_eq]
  lookupLocal name := by rw [lookupLocal_eq, hchain, lookupLocal_eq]
  symbol := hsymbol

/-- A table stands in a scope that was opened since another, `depth` scopes further in than the
first of these, and has kept the scopes and the symbols of the other. -/
structure Inside (u t : SymbolTable) (depth : Nat) : Prop where
  wf : u.WF
  path : ∃ inner, u.path = inner ++ t.path ∧ inner.length = depth + 1 ∧
    ∀ i ∈ inner, t.scopes.size ≤ i
  scopes : ∀ i < t.scopes.size, u.scopes[i]? = t.scopes[i]?
  symbol : ∀ id < t.symbols.size, u.symbols[id]? = t.symbols[id]?

namespace Inside

variable {depth : Nat}

/-- No scope is lost. -/
theorem size_le (h : u.Inside t depth) : t.scopes.size ≤ u.scopes.size := by
  refine Nat.le_of_not_lt fun hlt => ?_
  have hscope := h.scopes u.scopes.size hlt
  rw [Array.getElem?_eq_none (Nat.le_refl _), Array.getElem?_eq_getElem hlt] at hscope
  cases hscope

/-- A scope that is entered is the first of those since. -/
theorem of_enter (ht : t.WF) (kind : ScopeKind) : (t.enter kind).Inside t 0 where
  wf := ht.enter kind
  path := ⟨[t.scopes.size], path_enter ht kind, rfl, by simp⟩
  scopes i hi := (Array.getElem?_push ..).trans (if_neg (by omega))
  symbol _ _ := rfl

/-- A scope in it lies one further in. -/
theorem enter (h : u.Inside t depth) (kind : ScopeKind) :
    (u.enter kind).Inside t (depth + 1) := by
  have hsize := h.size_le
  obtain ⟨inner, hpath, hlength, hnew⟩ := h.path
  refine ⟨h.wf.enter kind, ⟨u.scopes.size :: inner, ?_, ?_, ?_⟩, fun i hi => ?_, h.symbol⟩
  · rw [path_enter h.wf, hpath]
    rfl
  · rw [List.length_cons, hlength]
  · exact List.forall_mem_cons.mpr ⟨hsize, hnew⟩
  · rw [← h.scopes i hi]
    exact (Array.getElem?_push ..).trans (if_neg (by omega))

/-- Closing a scope further in leaves the first open. -/
theorem exit (h : u.Inside t (depth + 1)) : u.exit.Inside t depth := by
  obtain ⟨inner, hpath, hlength, hnew⟩ := h.path
  obtain ⟨i, inner, rfl⟩ := List.exists_cons_of_length_eq_add_one hlength
  refine ⟨h.wf.exit, ⟨inner, ?_, ?_, ?_⟩, ?_, ?_⟩
  · exact path_exit h.wf hpath (List.append_ne_nil_of_right_ne_nil _ (List.cons_ne_nil _ _))
  · exact Nat.succ.inj hlength
  · exact fun i hi => hnew i (List.mem_cons_of_mem _ hi)
  · rw [scopes_exit]
    exact h.scopes
  · rw [symbols_exit]
    exact h.symbol

/-- A name is declared in a scope that was opened since. -/
theorem define (h : u.Inside t depth) (name : String) (kind : SymbolKind) (span : Span) :
    (u.define name kind span).Inside t depth := by
  obtain ⟨inner, hpath, hlength, hnew⟩ := h.path
  have hcurrent : t.scopes.size ≤ u.current := by
    obtain ⟨i, rest, rfl⟩ := List.exists_cons_of_length_eq_add_one hlength
    rw [SymbolTable.path, List.cons_append, List.cons.injEq] at hpath
    rw [hpath.1]
    exact hnew i (List.mem_cons_self ..)
  refine ⟨h.wf.define name kind span, ⟨inner, ?_, hlength, hnew⟩, fun i hi => ?_, fun id hid => ?_⟩
  · rw [path_define h.wf, hpath]
  · rw [← h.scopes i hi]
    exact (Array.getElem?_modify ..).trans (if_neg (by omega))
  · have hsymbol := h.symbol id hid
    rw [Array.getElem?_eq_getElem hid] at hsymbol ⊢
    exact Program.getElem?_push_of_eq_some hsymbol

/-- Actions that do not close the first scope keep a table inside it. -/
theorem perform {actions : List TableAction} {d : Nat} (h : u.Inside t depth)
    (hlevel : TableAction.level depth actions = some d) : (u.perform actions).Inside t d := by
  induction actions generalizing u depth with
  | nil =>
    cases hlevel
    exact h
  | cons a rest ih =>
    cases a with
    | enter kind => exact ih (h.enter kind) hlevel
    | exit =>
      cases depth with
      | zero => cases hlevel
      | succ depth => exact ih h.exit hlevel
    | define name kind span =>
      refine ih (h.define name kind span) ?_
      cases depth <;> exact hlevel

/-- Closing the first scope leads back to where it was opened. -/
theorem sameView_exit (ht : t.WF) (h : u.Inside t 0) : u.exit.SameView t := by
  obtain ⟨inner, hpath, hlength, -⟩ := h.path
  obtain ⟨i, rfl⟩ := List.length_eq_one_iff.mp hlength
  have hback : u.exit.path = t.path := path_exit h.wf hpath (List.cons_ne_nil _ _)
  have hcurrent : u.exit.current = t.current := (List.cons.inj hback).1
  refine .of_chain hcurrent ?_ ?_
  · rw [chain, hcurrent]
    refine chainFrom_congr t.current fun j hj => ?_
    rw [scopes_exit]
    exact h.scopes j (Nat.lt_of_le_of_lt hj ht.current)
  · rw [symbols_exit]
    exact h.symbol

end Inside

/-- What is done between the opening of a scope and its closing cannot be seen afterwards. -/
theorem sameView_of_bracketed (ht : t.WF) {actions : List TableAction}
    (h : TableAction.Bracketed actions) : (t.perform actions).SameView t := by
  obtain ⟨kind, inner, rfl, hlevel⟩ := h
  rw [perform_cons, perform_append]
  exact ((Inside.of_enter ht kind).perform hlevel).sameView_exit ht

/-- Whatever is done to the table in which a module starts, its scopes are in order and its symbols
are the declared ones.  From the current scope a path leads outwards to the first, and a name that
is looked up leads to its latest symbol in the nearest scope of the path that has one.  Actions that
open a scope and close it again, however deeply they nest, change nothing that can be seen. -/
theorem perform_scoped {t : SymbolTable} {actions : List TableAction}
    (h : initial.perform actions = t) :
    t.Ordered ∧
    t.symbols.toList = initial.symbols.toList ++ initial.newSymbols actions ∧
    t.path.IsChain (t.parent? · = some ·) ∧ t.path.getLast? = some 0 ∧
    (∀ name, t.lookup name = t.path.findSome? (t.latest? name)) ∧
    ∀ inner, TableAction.Bracketed inner → (t.perform inner).SameView t := by
  subst h
  have hordered := Ordered.initial.perform actions
  obtain ⟨hlinked, hlast⟩ := hordered.linked hordered.filed.wf.current
  exact ⟨hordered, symbols_perform actions initial, hlinked, hlast, hordered.lookup_eq_latest,
    fun inner hinner => sameView_of_bracketed hordered.filed.wf hinner⟩

/-- A name is declared twice, a scope is closed that is not open, and two scopes are open. -/
def muddle : List TableAction :=
  [.define "x" .variable .zero, .exit, .enter .function, .define "y" .variable .zero, .exit,
    .enter .block, .define "x" .variable .zero, .define "x" (.function ["y"]) .zero,
    .enter .block, .define "y" .variable .zero]

/-- A scope with two others in it, in each of which names are declared again. -/
def nest : List TableAction :=
  [.enter .function, .define "x" .variable .zero, .enter .block, .define "y" .variable .zero,
    .exit, .define "print" .variable .zero, .enter .block, .define "z" .variable .zero, .exit,
    .exit]

/-- After `muddle` the name `x` leads past the current scope to the last of three symbols, and after
`nest` it still does. -/
theorem muddle_scoped :
    ∃ t, initial.perform muddle = t ∧ TableAction.Bracketed nest ∧ t.Ordered ∧
      t.path = [3, 2, 0] ∧ t.latest? "x" 0 = some 2 ∧ t.lookup "x" = some 5 ∧
      (t.perform nest).lookup "x" = some 5 ∧ (t.perform nest).lookup "z" = none := by
  have hnest : TableAction.Bracketed nest := ⟨.function, nest.tail.dropLast, rfl, rfl⟩
  have hpath : (initial.perform muddle).path = [3, 2, 0] := by with_unfolding_all rfl
  obtain ⟨hordered, -, -, -, hlookup, hsame⟩ := perform_scoped (rfl : initial.perform muddle = _)
  have hview := hsame nest hnest
  refine ⟨_, rfl, hnest, hordered, hpath, by decide +kernel, ?_, ?_, ?_⟩
  · rw [hlookup, hpath]
    decide +kernel
  · rw [hview.lookup, hlookup, hpath]
    decide +kernel
  · rw [hview.lookup, hlookup, hpath]
    decide +kernel

end SymbolTable

end Scriptlet
