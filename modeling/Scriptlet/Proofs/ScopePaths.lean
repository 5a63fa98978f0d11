import Scriptlet.Proofs.Chain
import Scriptlet.Proofs.Placement

/-!
# Where symbols are filed

The scopes from the current one outwards have indices, which make up the path of a table.  Every
name in a scope leads to a symbol of this name which knows that scope (`SymbolTable.Filed`), so a
name that is looked up leads to a symbol in one of the scopes of the path
(`SymbolTable.Filed.exists_of_lookup`).
-/

namespace Scriptlet

namespace SymbolTable

variable {t : SymbolTable}

/-- The indices of the scopes from the current one outwards. -/
def path (t : SymbolTable) : List Nat := t.current :: t.chain.filterMap Scope.parent

/-- For every scope of a table, the scope around it and what it belongs to. -/
def outline (t : SymbolTable) : List (Option Nat × ScopeKind) :=
  t.scopes.toList.map fun s => (s.parent, s.kind)

theorem length_outline (t : SymbolTable) : t.outline.length = t.scopes.size := by
  rw [outline, List.length_map, Array.length_toList]

/-- Every scope of a chain has its index in the path. -/
theorem exists_index_of_mem_chainFrom (ht : t.WF) {index : Nat} {s : Scope}
    (h : s ∈ t.chainFrom index) :
    ∃ i ∈ index :: (t.chainFrom index).filterMap Scope.parent, t.scopes[i]? = some s := by
  induction index using Nat.strongRecOn with
  | ind index ih =>
    cases hs : t.scopes[index]? with
    | none =>
      rw [chainFrom, hs] at h
      cases h
    | some scope =>
      rw [chainFrom_of_scope ht hs] at h ⊢
      rcases List.mem_cons.mp h with rfl | h
      · exact ⟨index, List.mem_cons_self .., hs⟩
      · cases hparent : scope.parent with
        | none =>
          rw [hparent] at h
          cases h
        | some parent =>
          rw [hparent] at h
          obtain ⟨i, hi, hscope⟩ := ih parent (ht.parent hs hparent) h
          refine ⟨i, List.mem_cons_of_mem _ ?_, hscope⟩
          rw [List.filterMap_cons_some hparent]
          exact hi

/-! ## Opening, closing and declaring -/

/-- A scope that is entered gets the next number and stands in front of those around it. -/
theorem path_enter (ht : t.WF) (kind : ScopeKind) :
    (t.enter kind).path = t.scopes.size :: t.path := by
  rw [path, chain_enter ht, List.filterMap_cons]
  rfl

/-- Defining a symbol stays in the same scopes. -/
theorem path_define (ht : t.WF) (name : String) (kind : SymbolKind) (span : Span) :
    (t.define name kind span).path = t.path := by
  obtain ⟨s, rest, hchain⟩ := ht.exists_chain
  rw [path, chain_define ht hchain, path, hchain, List.filterMap_cons, List.filterMap_cons]
  rfl

/-- Closing a scope that is not the outermost takes it off the path. -/
theorem path_exit (ht : t.WF) {i : Nat} {outer : List Nat} (h : t.path = i :: outer)
    (hne : outer ≠ []) : t.exit.path = outer := by
  obtain ⟨scope, hs⟩ : ∃ scope, t.scopes[t.current]? = some scope :=
    ⟨_, Array.getElem?_eq_getElem ht.current⟩
  rw [path, chain, chainFrom_of_scope ht hs] at h
  obtain ⟨-, houter⟩ := List.cons.inj h
  cases hparent : scope.parent with
  | none =>
    rw [List.filterMap_cons_none hparent, hparent] at houter
    exact absurd houter.symm hne
  | some parent =>
    rw [List.filterMap_cons_some hparent, hparent] at houter
    rw [exit_of_parent hs hparent, ← houter]
    have hsame : ({ t with current := parent } : SymbolTable).chain = t.chainFrom parent :=
      chainFrom_congr parent fun _ _ => rfl
    rw [path, hsame]
    rfl

theorem outline_exit (t : SymbolTable) : t.exit.outline = t.outline := by
  rw [outline, scopes_exit, outline]

/-- Entering a scope adds it to the outline, inside of the current one. -/
theorem outline_enter (t : SymbolTable) (kind : ScopeKind) :
    (t.enter kind).outline = t.outline ++ [(some t.current, kind)] := by
  show (t.scopes.push _).toList.map _ = _
  rw [Array.toList_push, List.map_append]
  rfl

theorem outline_define (t : SymbolTable) (name : String) (kind : SymbolKind) (span : Span) :
    (t.define name kind span).outline = t.outline := by
  unfold outline
  refine List.ext_getElem? fun i => ?_
  have hscope : (t.define name kind span).scopes[i]? = _ := Array.getElem?_modify ..
  rw [List.getElem?_map, List.getElem?_map, Array.getElem?_toList, Array.getElem?_toList, hscope]
  split
  · rw [Option.map_map]
    rfl
  · rfl

/-! ## Filed symbols -/

/-- Every name in a scope leads to a symbol of this name which was declared in that scope. -/
structure Filed (t : SymbolTable) : Prop where
  wf : t.WF
  symbol : ∀ {i : Nat} {scope : Scope} {name : String} {id : Nat}, t.scopes[i]? = some scope →
    scope.symbols.find? name = some id →
    ∃ symbol, t.symbols[id]? = some symbol ∧ symbol.name = name ∧ symbol.scope = i

/-- A name leads to a symbol of this name in one of the scopes of the path. -/
theorem Filed.exists_of_lookup (h : t.Filed) {name : String} {id : Nat}
    (hlookup : t.lookup name = some id) :
    ∃ symbol, t.symbols[id]? = some symbol ∧ symbol.name = name ∧ symbol.scope ∈ t.path := by
  rw [t.lookup_eq] at hlookup
  obtain ⟨s, hs, hfind⟩ := List.exists_of_findSome?_eq_some hlookup
  obtain ⟨i, hi, hscope⟩ := exists_index_of_mem_chainFrom h.wf hs
  obtain ⟨symbol, hsymbol, hname, rfl⟩ := h.symbol hscope hfind
  exact ⟨symbol, hsymbol, hname, hi⟩

namespace Filed

/-- Where there are no names, none is filed wrongly. -/
theorem blank : blank.Filed := by
  refine ⟨.blank, fun {i scope name id} hs hfind => ?_⟩
  obtain ⟨hlt, rfl⟩ := Array.getElem?_eq_some_iff.mp hs
  obtain rfl : i = 0 := by simpa [SymbolTable.blank] using hlt
  cases hfind

/-- A scope that is entered has no names yet. -/
theorem enter (h : t.Filed) (kind : ScopeKind) : (t.enter kind).Filed := by
  refine ⟨h.wf.enter kind, fun {i scope name id} hs hfind => ?_⟩
  have hs : (t.scopes.push ⟨some t.current, kind, .empty⟩)[i]? = some scope := hs
  rw [Array.getElem?_push] at hs
  by_cases hi : i = t.scopes.size
  · rw [if_pos hi] at hs
    cases hs
    cases hfind
  · rw [if_neg hi] at hs
    exact h.symbol hs hfind

/-- Leaving a scope moves no name. -/
theorem exit (h : t.Filed) : t.exit.Filed := by
  refine ⟨h.wf.exit, fun {i scope name id} hs hfind => ?_⟩
  rw [scopes_exit] at hs
  rw [symbols_exit]
  exact h.symbol hs hfind

/-- A name is filed in the scope that its symbol says. -/
theorem define (h : t.Filed) (name : String) (kind : SymbolKind) (span : Span) :
    (t.define name kind span).Filed := by
  refine ⟨h.wf.define name kind span, fun {i scope n id} hs hfind => ?_⟩
  have hold : ∀ {scope : Scope}, t.scopes[i]? = some scope → scope.symbols.find? n = some id →
      ∃ symbol, (t.define name kind span).symbols[id]? = some symbol ∧ symbol.name = n ∧
        symbol.scope = i := by
    intro scope hs hfind
    obtain ⟨symbol, hsymbol, hrest⟩ := h.symbol hs hfind
    exact ⟨symbol, Program.getElem?_push_of_eq_some hsymbol, hrest⟩
  have hs : (t.scopes.modify t.current _)[i]? = some scope := hs
  rw [Array.getElem?_modify] at hs
  by_cases hi : t.current = i
  · rw [if_pos hi] at hs
    obtain ⟨old, hscope, rfl⟩ := Option.map_eq_some_iff.mp hs
    rw [SortedMap.find?_insert] at hfind
    by_cases hn : n = name
    · -- The new entry leads to the symbol that is added last.
      rw [if_pos hn] at hfind
      cases hfind
      exact ⟨_, Array.getElem?_push_size .., hn.symm, hi⟩
    · rw [if_neg hn] at hfind
      exact hold hscope hfind
  · rw [if_neg hi] at hs
    exact hold hs hfind

end Filed

/-- A module starts in the only scope, with the built-in functions filed there. -/
theorem filed_initial :
    initial.Filed ∧ initial.path = [0] ∧ initial.outline = [(none, .global)] := by
  have hnames : ∀ (names : List String) {t : SymbolTable}, t.Filed →
      (names.foldl (fun t name => t.define name .builtin .zero) t).Filed ∧
        (names.foldl (fun t name => t.define name .builtin .zero) t).path = t.path ∧
        (names.foldl (fun t name => t.define name .builtin .zero) t).outline = t.outline := by
    intro names
    induction names with
    | nil => exact fun ht => ⟨ht, rfl, rfl⟩
    | cons name names ih =>
      intro t ht
      obtain ⟨hfiled, hpath, houtline⟩ := ih (ht.define name .builtin .zero)
      exact ⟨hfiled, hpath.trans (path_define ht.wf ..), houtline.trans (outline_define ..)⟩
  obtain ⟨hfiled, hpath, houtline⟩ := hnames Builtin.names .blank
  refine ⟨hfiled, hpath.trans ?_, houtline⟩
  rw [path, chain_blank]
  rfl

end SymbolTable

end Scriptlet
