import Scriptlet.SortedMap
import Scriptlet.Source.Span
import Scriptlet.Vocabulary.Builtin

/-!
# Symbol tables

All symbols and all scopes of a module, each kind in one array.  A scope knows the scope around it
by its index, which is always smaller than its own, and the table knows the scope in which it
stands.
-/

namespace Scriptlet

/-- What a name can stand for. -/
inductive SymbolKind where
  | variable
  | function (params : List String)
  | builtin
  deriving Repr, DecidableEq

/-- A symbol that can be called. -/
def SymbolKind.callable : SymbolKind → Bool
  | .variable => false
  | .function _ => true
  | .builtin => true

/-- What a scope belongs to. -/
inductive ScopeKind where
  | global
  | function
  | block
  deriving Repr, DecidableEq

/-- A declared name, with the scope it was declared in. -/
structure Symbol where
  name : String
  kind : SymbolKind
  span : Span
  scope : Nat
  deriving Repr, DecidableEq

/-- A scope: the scope around it, if any, and the symbols declared in it by name. -/
structure Scope where
  parent : Option Nat
  kind : ScopeKind
  symbols : SortedMap String Nat
  deriving Repr, DecidableEq

/-- The symbols and scopes of a module, and the scope in which the table stands. -/
structure SymbolTable where
  symbols : Array Symbol
  scopes : Array Scope
  current : Nat
  deriving Repr, DecidableEq

namespace SymbolTable

/-- The scope in which the table stands. -/
def currentScope? (t : SymbolTable) : Option Scope := t.scopes[t.current]?

/-- Open a scope inside the current one and stand in it. -/
def enter (t : SymbolTable) (kind : ScopeKind) : SymbolTable :=
  { t with
    scopes := t.scopes.push ⟨some t.current, kind, .empty⟩
    current := t.scopes.size }

/-- Go back to the scope around the current one; the outermost scope is never left. -/
def exit (t : SymbolTable) : SymbolTable :=
  match t.currentScope?.bind Scope.parent with
  | some parent => { t with current := parent }
  | none => t

/-- Declare a name in the current scope.  A name declared there before is hidden. -/
def define (t : SymbolTable) (name : String) (kind : SymbolKind) (span : Span) : SymbolTable :=
  let id := t.symbols.size
  { t with
    symbols := t.symbols.push ⟨name, kind, span, t.current⟩
    scopes := t.scopes.modify t.current fun s => { s with symbols := s.symbols.insert name id } }

/-- Look a name up in a scope and in those around it. -/
def lookupFrom (t : SymbolTable) (name : String) (index : Nat) : Option Nat :=
  match t.scopes[index]? with
  | none => none
  | some scope =>
    match scope.symbols.find? name with
    | some id => some id
    | none =>
      match scope.parent with
      | none => none
      | some parent => if parent < index then t.lookupFrom name parent else none
termination_by index

/-- Look a name up from the current scope outwards. -/
def lookup (t : SymbolTable) (name : String) : Option Nat := t.lookupFrom name t.current

/-- Look a name up in the current scope alone. -/
def lookupLocal (t : SymbolTable) (name : String) : Option Nat :=
  t.currentScope?.bind fun s => s.symbols.find? name

/-- The kind of the current scope. -/
def currentKind (t : SymbolTable) : ScopeKind :=
  (t.currentScope?.map Scope.kind).getD .global

/-- The table with one scope and nothing declared. -/
def blank : SymbolTable := ⟨#[], #[⟨none, .global, .empty⟩], 0⟩

/-- The table in which a module starts: the built-in functions are declared in the global scope. -/
def initial : SymbolTable :=
  Builtin.names.foldl (fun t name => t.define name .builtin .zero) blank

end SymbolTable

end Scriptlet
