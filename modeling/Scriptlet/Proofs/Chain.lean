import Scriptlet.Scope.Table

/-!
# The scopes around a place

A symbol table keeps all scopes in one array, where each knows the one around it.  What can be seen
from the current scope depends only on the chain of scopes from there outwards: looking a name up
searches this chain, and opening, closing and declaring change its head.
-/

namespace Scriptlet

namespace SymbolTable

/-- The scopes from an index outwards. -/
def chainFrom (t : SymbolTable) (index : Nat) : List Scope :=
  match t.scopes[index]? with
  | none => []
  | some scope =>
    scope ::
      match scope.parent with
      | none => []
      | some parent => if parent < index then t.chainFrom parent else []
termination_by index

/-- The scopes from the current one outwards. -/
def chain (t : SymbolTable) : List Scope := t.chainFrom t.current

/-- The current scope is there, and every scope lies behind the one around it. -/
structure WF (t : SymbolTable) : Prop where
  current : t.current < t.scopes.size
  parent : ∀ {i : Nat} {scope : Scope} {parent : Nat}, t.scopes[i]? = some scope →
    scope.parent = some parent → parent < i

/-! ## Reading the chain -/

/-- A name is looked up along the chain. -/
theorem lookupFrom_eq (t : SymbolTable) (name : String) (index : Nat) :
    t.lookupFrom name index = (t.chainFrom index).findSome? fun s => s.symbols.find? name := by
  induction index using Nat.strongRecOn with
  | ind index ih =>
    rw [lookupFrom, chainFrom]
    cases hs : t.scopes[index]? with
    | none => rfl
    | some scope =>
      simp only [List.findSome?_cons]
      cases hfind : scope.symbols.find? name with
      | some id => rfl
      | none =>
        cases hparent : scope.parent with
        | none => rfl
        | some parent =>
          by_cases hlt : parent < index
          · simp only [if_pos hlt]
            exact ih parent hlt
          · simp only [if_neg hlt]
            rfl

/-- A lookup goes through the scopes from the current one outwards. -/
theorem lookup_eq (t : SymbolTable) (name : String) :
    t.lookup name = t.chain.findSome? fun s => s.symbols.find? name :=
  t.lookupFrom_eq name t.current

/-- The chain starts with the current scope. -/
theorem head?_chain (t : SymbolTable) : t.chain.head? = t.currentScope? := by
  rw [chain, chainFrom, currentScope?]
  cases t.scopes[t.current]? <;> rfl

/-- There is a current scope. -/
theorem WF.exists_chain {t : SymbolTable} (ht : t.WF) : ∃ s rest, t.chain = s :: rest := by
  refine List.exists_cons_of_ne_nil fun hnil => ?_
  have hhead := t.head?_chain
  rw [hnil, currentScope?, Array.getElem?_eq_getElem ht.current] at hhead
  cases hhead

/-- A name is looked up locally in the head of the chain. -/
theorem lookupLocal_eq (t : SymbolTable) (name : String) :
    t.lookupLocal name = t.chain.head?.bind fun s => s.symbols.find? name := by
  rw [lookupLocal, head?_chain]

/-- The kind of the current scope is that of the first in the chain. -/
theorem currentKind_eq (t : SymbolTable) :
    t.currentKind = (t.chain.head?.map Scope.kind).getD .global := by
  rw [currentKind, head?_chain]

/-- A table with one scope is well formed. -/
theorem WF.blank : blank.WF := by
  refine ⟨by decide, fun {i scope parent} hi hparent => ?_⟩
  -- the only scope has none around it
  obtain ⟨hlt, rfl⟩ := Array.getElem?_eq_some_iff.mp hi
  obtain rfl : i = 0 := by simpa [SymbolTable.blank] using hlt
  cases hparent

theorem chain_blank : blank.chain = [⟨none, .global, .empty⟩] := by
  rw [chain, chainFrom]
  rfl

/-- The chain from an index depends only on the scopes up to there. -/
theorem chainFrom_congr {t t' : SymbolTable} (index : Nat)
    (h : ∀ j, j ≤ index → t'.scopes[j]? = t.scopes[j]?) :
    t'.chainFrom index = t.chainFrom index := by
  induction index using Nat.strongRecOn with
  | ind index ih =>
    rw [chainFrom, chainFrom, h index (Nat.le_refl index)]
    cases t.scopes[index]? with
    | none => rfl
    | some scope =>
      cases hparent : scope.parent with
      | none => simp only [hparent]
      | some parent =>
        by_cases hlt : parent < index
        · simp only [hparent, if_pos hlt]
          rw [ih parent hlt fun j hj => h j (by omega)]
        · simp only [hparent, if_neg hlt]

/-- The chain of a well-formed table is its current scope and the chain around it. -/
theorem chainFrom_of_scope {t : SymbolTable} (ht : t.WF) {i : Nat} {scope : Scope}
    (hs : t.scopes[i]? = some scope) :
    t.chainFrom i = scope :: (scope.parent.map t.chainFrom).getD [] := by
  rw [chainFrom, hs]
  cases hparent : scope.parent with
  | none => simp only [hparent]; rfl
  | some parent =>
    simp only [hparent, if_pos (ht.parent hs hparent)]
    rfl

/-! ## Changing the chain -/

variable {t : SymbolTable}

/-- Entering a scope keeps a table well formed. -/
theorem WF.enter (ht : t.WF) (kind : ScopeKind) : (t.enter kind).WF := by
  constructor
  · show t.scopes.size < (t.scopes.push _).size
    rw [Array.size_push]
    exact Nat.lt_succ_self _
  · intro i scope parent hs hparent
    have hs : (t.scopes.push ⟨some t.current, kind, .empty⟩)[i]? = some scope := hs
    rw [Array.getElem?_push] at hs
    by_cases hi : i = t.scopes.size
    · rw [if_pos hi] at hs
      cases hs
      cases hparent
      rw [hi]
      exact ht.current
    · rw [if_neg hi] at hs
      exact ht.parent hs hparent

/-- Opening a scope puts it in front of the chain. -/
theorem chain_enter (ht : t.WF) (kind : ScopeKind) :
    (t.enter kind).chain = ⟨some t.current, kind, .empty⟩ :: t.chain := by
  have hnew : (t.enter kind).scopes[t.scopes.size]? = some ⟨some t.current, kind, .empty⟩ :=
    Array.getElem?_push_size ..
  show (t.enter kind).chainFrom t.scopes.size = _
  rw [chainFrom_of_scope (ht.enter kind) hnew]
  show _ :: (t.enter kind).chainFrom t.current = _
  rw [chain, chainFrom_congr t.current fun j hj => ?_]
  have hlt : j < t.scopes.size := Nat.lt_of_le_of_lt hj ht.current
  exact (Array.getElem?_push ..).trans (if_neg (by omega))

/-- Closing a scope goes on with the parent of the current one. -/
theorem exit_of_parent {scope : Scope} {parent : Nat} (hs : t.scopes[t.current]? = some scope)
    (hparent : scope.parent = some parent) : t.exit = { t with current := parent } := by
  simp only [exit, currentScope?, hs, Option.bind_some, hparent]

/-- Leaving a scope keeps a table well formed, since the scope around it is there. -/
theorem WF.exit (ht : t.WF) : t.exit.WF := by
  unfold SymbolTable.exit
  split
  · next parent hparent =>
    obtain ⟨scope, hs, hparent⟩ := Option.bind_eq_some_iff.mp hparent
    exact ⟨Nat.lt_trans (ht.parent hs hparent) ht.current, ht.parent⟩
  · exact ht

@[simp] theorem symbols_exit (t : SymbolTable) : t.exit.symbols = t.symbols := by
  unfold exit
  split <;> rfl

@[simp] theorem scopes_exit (t : SymbolTable) : t.exit.scopes = t.scopes := by
  unfold exit
  split <;> rfl

/-- Closing a scope that is not the outermost takes it off the chain. -/
theorem chain_exit (ht : t.WF) {s u : Scope} {rest : List Scope} (h : t.chain = s :: u :: rest) :
    t.exit.chain = u :: rest ∧ t.exit.WF ∧ t.exit.symbols = t.symbols := by
  obtain ⟨scope, hs⟩ : ∃ scope, t.scopes[t.current]? = some scope :=
    ⟨_, Array.getElem?_eq_getElem ht.current⟩
  have hchain := chainFrom_of_scope ht hs
  rw [show t.chainFrom t.current = t.chain from rfl, h, List.cons.injEq] at hchain
  obtain ⟨rfl, hrest⟩ := hchain
  cases hparent : s.parent with
  | none =>
    rw [hparent] at hrest
    cases hrest
  | some parent =>
    rw [hparent] at hrest
    refine ⟨?_, ht.exit, t.symbols_exit⟩
    rw [exit_of_parent hs hparent]
    have hsame : ({ t with current := parent } : SymbolTable).chain = t.chainFrom parent :=
      chainFrom_congr parent fun _ _ => rfl
    exact hsame.trans hrest.symm

/-- Defining a symbol keeps a table well formed. -/
theorem WF.define (ht : t.WF) (name : String) (kind : SymbolKind) (span : Span) :
    (t.define name kind span).WF := by
  constructor
  · show t.current < (t.scopes.modify _ _).size
    rw [Array.size_modify]
    exact ht.current
  · intro i scope parent hs hparent
    have hs : (t.scopes.modify t.current _)[i]? = some scope := hs
    rw [Array.getElem?_modify] at hs
    by_cases hi : t.current = i
    · rw [if_pos hi] at hs
      obtain ⟨old, hold, rfl⟩ := Option.map_eq_some_iff.mp hs
      exact ht.parent hold hparent
    · rw [if_neg hi] at hs
      exact ht.parent hs hparent

/-- Declaring a name changes the head of the chain. -/
theorem chain_define (ht : t.WF) {s : Scope} {rest : List Scope} (h : t.chain = s :: rest)
    (name : String) (kind : SymbolKind) (span : Span) :
    (t.define name kind span).chain =
      { s with symbols := s.symbols.insert name t.symbols.size } :: rest := by
  obtain ⟨scope, hs⟩ : ∃ scope, t.scopes[t.current]? = some scope :=
    ⟨_, Array.getElem?_eq_getElem ht.current⟩
  have hchain := chainFrom_of_scope ht hs
  rw [show t.chainFrom t.current = t.chain from rfl, h, List.cons.injEq] at hchain
  obtain ⟨rfl, hrest⟩ := hchain
  have hnew : (t.define name kind span).scopes[t.current]? =
      some { s with symbols := s.symbols.insert name t.symbols.size } := by
    refine (Array.getElem?_modify ..).trans ?_
    rw [if_pos rfl, hs]
    rfl
  show (t.define name kind span).chainFrom t.current = _
  rw [chainFrom_of_scope (ht.define name kind span) hnew, hrest]
  cases hparent : s.parent with
  | none => rfl
  | some parent =>
    have hlt := ht.parent hs hparent
    refine congrArg (List.cons _) (chainFrom_congr parent fun j hj => ?_)
    exact (Array.getElem?_modify ..).trans (if_neg (by omega))

end SymbolTable

end Scriptlet
