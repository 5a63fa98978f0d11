import Mathlib.Data.List.Nodup
import Scriptlet.Proofs.Cells
import Scriptlet.Proofs.SortedEntries

/-!
# Names that stand for one symbol

In a module without shadowing, a name stands for at most one symbol outside functions, for at most
one in each function, and never for both.  Variables by name and cells by number then hold the same
values (`Agrees`): reading a name is reading the cell of the symbol that the name is bound to, and
writing keeps the two in step.
-/

namespace Scriptlet

/-! ## Modules without shadowing -/

/-- The names that the parameters and the body of a function declare. -/
def Definition.names (d : Definition) : List String :=
  d.params ++ (Stmt.declarationsIn true 0 d.body).map (·.name)

/-- The names declared outside functions, with those of the built-in functions. -/
def Module.outerNames (m : Module) : List String :=
  (m.declarations.filter fun e => !e.inside).map (·.name)

/-- No name is declared twice outside functions, none twice in a function, and none both in a
function and outside. -/
def Module.Unshadowed (m : Module) : Prop :=
  m.outerNames.Nodup ∧
    ∀ d ∈ Stmt.definitionsIn m.body, d.names.Nodup ∧ ∀ x ∈ d.names, x ∉ m.outerNames

instance (m : Module) : Decidable m.Unshadowed :=
  inferInstanceAs (Decidable (_ ∧ ∀ d ∈ Stmt.definitionsIn m.body, _ ∧ ∀ x ∈ d.names, _))

/-- The declarations of a function whose symbol is `k`. -/
def Definition.declarations (d : Definition) (span : Span) (k : Nat) : List Declared :=
  Declared.parameters span (k + 1) d.params ++
    Stmt.declarationsIn true (k + 1 + d.params.length) d.body

/-- The variables declared outside functions. -/
def Module.outerVariables (m : Module) : List Declared :=
  (m.declarations.filter fun e => !e.inside).filter fun e => e.kind == .variable

/-- Parameters are declared under their names. -/
theorem Declared.map_name_parameters (span : Span) : ∀ (params : List String) (n : Nat),
    (parameters span n params).map (·.name) = params
  | [], n => rfl
  | p :: rest, n => by rw [parameters, List.map_cons, map_name_parameters span rest]

mutual

/-- The names do not depend on the numbers. -/
theorem Stmt.map_name_declarations : ∀ (s : Stmt) (i j : Bool) (n k : Nat),
    (s.declarations i n).map (·.name) = (s.declarations j k).map (·.name)
  | .letStmt _ _ _, i, j, n, k => by
    rw [declarations, declarations]
    rfl
  | .fnStmt span _ params body, i, j, n, k => by
    rw [declarations, declarations, List.map_cons, List.map_cons, List.map_append, List.map_append,
      Declared.map_name_parameters, Declared.map_name_parameters,
      Stmt.map_name_declarationsIn body true true _ (k + 1 + params.length)]
  | .ifStmt _ _ body, i, j, n, k => by
    rw [declarations, declarations, Stmt.map_name_declarationsIn body i j n k]
  | .ifElseStmt _ _ body other, i, j, n, k => by
    rw [declarations, declarations, List.map_append, List.map_append,
      Stmt.map_name_declarationsIn body i j n k,
      Stmt.map_name_declarationsIn other i j _ (k + Stmt.declaredIn body)]
  | .whileStmt _ _ body, i, j, n, k => by
    rw [declarations, declarations, Stmt.map_name_declarationsIn body i j n k]
  | .returnStmt _ _, i, j, n, k => by rw [declarations, declarations]
  | .breakStmt _, i, j, n, k => by rw [declarations, declarations]
  | .continueStmt _, i, j, n, k => by rw [declarations, declarations]
  | .exprStmt _ _, i, j, n, k => by rw [declarations, declarations]

/-- The names that a block declares do not depend on how its declarations are numbered. -/
theorem Stmt.map_name_declarationsIn : ∀ (ss : List Stmt) (i j : Bool) (n k : Nat),
    (Stmt.declarationsIn i n ss).map (·.name) = (Stmt.declarationsIn j k ss).map (·.name)
  | [], i, j, n, k => by rw [declarationsIn, declarationsIn]
  | s :: rest, i, j, n, k => by
    rw [declarationsIn, declarationsIn, List.map_append, List.map_append,
      Stmt.map_name_declarations s i j n k,
      Stmt.map_name_declarationsIn rest i j _ (k + s.declared)]

end

/-- The declarations of a function have its names. -/
theorem Definition.map_name_declarations (d : Definition) (span : Span) (k : Nat) :
    (d.declarations span k).map (·.name) = d.names := by
  rw [declarations, names, List.map_append, Declared.map_name_parameters,
    Stmt.map_name_declarationsIn d.body true true _ 0]

/-- The declarations of a function have the numbers behind that of its symbol, without a gap. -/
theorem Definition.map_number_declarations (d : Definition) (span : Span) (k : Nat) :
    (d.declarations span k).map (·.number) =
      List.range' (k + 1) (d.params.length + Stmt.declaredIn d.body) := by
  rw [declarations, List.map_append, Declared.map_number_parameters,
    Stmt.map_number_declarationsIn, List.range'_append_1]

/-! ## Variables and cells -/

/-- Two of some declarations have the same name exactly if they have the same number. -/
def Apart (es : List Declared) : Prop :=
  ∀ e ∈ es, ∀ f ∈ es, e.name = f.name ↔ e.number = f.number

/-- Declarations are told apart by their names if no name and no number is there twice. -/
theorem apart_of_nodup {es : List Declared} (hnames : (es.map (·.name)).Nodup)
    (hnumbers : (es.map (·.number)).Nodup) : Apart es := by
  intro e he f hf
  constructor
  · intro h
    rw [List.inj_on_of_nodup_map hnames he hf h]
  · intro h
    rw [List.inj_on_of_nodup_map hnumbers he hf h]

/-- Variables have the values of the cells of some declarations, and there is nothing else. -/
structure Mirrors (es : List Declared) (vars : Variables) (cells : SortedMap Nat Value) :
    Prop where
  values : ∀ e ∈ es, vars.find? e.name = cells.find? e.number
  names : ∀ x, x ∉ es.map (·.name) → vars.find? x = none
  numbers : ∀ k, k ∉ es.map (·.number) → cells.find? k = none

namespace Mirrors

variable {es : List Declared} {vars : Variables} {cells : SortedMap Nat Value}

theorem empty (es : List Declared) : Mirrors es .empty .empty :=
  ⟨fun _ _ => rfl, fun _ _ => rfl, fun _ _ => rfl⟩

/-- The variables that have values are those of the declarations whose cells have them. -/
theorem find?_name (h : Mirrors es vars cells) {x : String} {v : Value} :
    vars.find? x = some v ↔ ∃ e ∈ es, e.name = x ∧ cells.find? e.number = some v := by
  constructor
  · intro hfind
    have hx : x ∈ es.map (·.name) := by
      refine Decidable.byContradiction fun hx => ?_
      rw [h.names x hx] at hfind
      cases hfind
    obtain ⟨e, he, rfl⟩ := List.mem_map.mp hx
    exact ⟨e, he, rfl, (h.values e he).symm.trans hfind⟩
  · rintro ⟨e, he, rfl, hfind⟩
    exact (h.values e he).trans hfind

/-- Only the cells of declarations have values. -/
theorem exists_number (h : Mirrors es vars cells) {k : Nat} {v : Value}
    (hfind : cells.find? k = some v) : ∃ e ∈ es, e.number = k := by
  refine List.mem_map.mp (Decidable.byContradiction fun hk => ?_)
  rw [h.numbers k hk] at hfind
  cases hfind

/-- Writing a variable and the cell of its declaration. -/
theorem insert (h : Mirrors es vars cells) (hes : Apart es) {e : Declared} (he : e ∈ es)
    (v : Value) : Mirrors es (vars.insert e.name v) (cells.insert e.number v) := by
  constructor
  · intro f hf
    rw [SortedMap.find?_insert, SortedMap.find?_insert, h.values f hf]
    exact if_congr (hes f hf e he) rfl rfl
  · intro x hx
    rw [SortedMap.find?_insert, if_neg, h.names x hx]
    rintro rfl
    exact hx (List.mem_map_of_mem he)
  · intro k hk
    rw [SortedMap.find?_insert, if_neg, h.numbers k hk]
    rintro rfl
    exact hk (List.mem_map_of_mem he)

/-- Binding the parameters of a call. -/
theorem bindAll {span : Span} (hes : Apart es) : ∀ (params : List String) (n : Nat)
    (args : List Value) {vars : Variables} {cells : SortedMap Nat Value}, Mirrors es vars cells →
      Declared.parameters span n params ⊆ es →
      Mirrors es (bindAll params args vars) (bindCells n params args cells)
  | [], n, args, vars, cells, h, _ => h
  | p :: rest, n, args, vars, cells, h, hsub => by
    obtain ⟨hp, hrest⟩ := List.cons_subset.mp hsub
    exact bindAll hes rest (n + 1) args.tail (h.insert hes hp _) hrest

end Mirrors

/-! ## Stores and cells -/

/-- The variables of the active call, if there is one, have the values of its cells. -/
def Mirrored : Option (List Declared) → Option Variables → Option (SortedMap Nat Value) → Prop
  | none, locals, own => locals = none ∧ own = none
  | some es, locals, own => ∃ vars cells, locals = some vars ∧ own = some cells ∧
    Mirrors es vars cells

/-- A store and cells are the same outside of calls. -/
structure Shares (m : Module) (st : Store) (c : Cells) : Prop where
  outer : Mirrors m.outerVariables st.globals c.shared
  globals_ordered : st.globals.Ordered
  shared_ordered : c.shared.Ordered
  printed : st.printed = c.printed
  screen : st.screen = c.screen
  input : st.input = c.input

/-- A store and cells are the same, where the active call, if there is one, has the given
declarations. -/
structure Agrees (m : Module) (own : Option (List Declared)) (st : Store) (c : Cells) : Prop
    extends Shares m st c where
  own : Mirrored own st.locals c.own

/-- What is known of the declarations of a function. -/
structure Module.Owns (m : Module) (es : List Declared) : Prop where
  declared : es ⊆ m.declarations
  apart : Apart es
  clear : ∀ e ∈ es, e.name ∉ m.outerNames

/-- The declarations of a function are told apart by their names, from one another and from those
outside of functions. -/
theorem Module.Unshadowed.owns {m : Module} (h : m.Unshadowed) {d : Definition}
    (hd : d ∈ Stmt.definitionsIn m.body) {span : Span} {k : Nat}
    (hsub : d.declarations span k ⊆ m.declarations) : m.Owns (d.declarations span k) := by
  obtain ⟨hnodup, hclear⟩ := h.2 d hd
  rw [← d.map_name_declarations span k] at hnodup hclear
  refine ⟨hsub, apart_of_nodup hnodup ?_, fun e he => hclear _ (List.mem_map_of_mem he)⟩
  rw [d.map_number_declarations]
  exact List.nodup_range'

/-- A declaration that can be seen is one outside functions or a variable of the active call. -/
def Module.Knows (m : Module) (own : Option (List Declared)) (d : Declaration) : Prop :=
  ⟨d, false⟩ ∈ m.declarations ∨ ∃ es ∈ own, ⟨d, true⟩ ∈ es ∧ d.kind = .variable

section Agreement

variable {m : Module} {t : SymbolTable} {own : Option (List Declared)} {st : Store} {c : Cells}

theorem Module.mem_outerNames {d : Declaration} (h : ⟨d, false⟩ ∈ m.declarations) :
    d.name ∈ m.outerNames :=
  List.mem_map.mpr ⟨_, List.mem_filter.mpr ⟨h, rfl⟩, rfl⟩

theorem Module.mem_outerVariables {d : Declaration} (h : ⟨d, false⟩ ∈ m.declarations)
    (hkind : d.kind = .variable) : ⟨d, false⟩ ∈ m.outerVariables :=
  List.mem_filter.mpr ⟨List.mem_filter.mpr ⟨h, rfl⟩, beq_iff_eq.mpr hkind⟩

/-- A name that is not declared outside of functions is no outer variable. -/
theorem Module.not_mem_outerVariables {x : String} (h : x ∉ m.outerNames) :
    x ∉ m.outerVariables.map (·.name) := by
  intro hx
  obtain ⟨e, he, rfl⟩ := List.mem_map.mp hx
  exact h (List.mem_map_of_mem (List.mem_filter.mp he).1)

/-- The outer variables are told apart by their names. -/
theorem Module.Unshadowed.apart (h : m.Unshadowed) : Apart m.outerVariables := by
  refine apart_of_nodup ?_ ?_
  · exact h.1.sublist (List.filter_sublist.map _)
  · exact m.nodup_numbers.sublist ((List.filter_sublist.trans List.filter_sublist).map _)

/-- A name that stands for something else than a variable outside functions stands for no variable
there. -/
theorem Module.Unshadowed.not_mem_outerVariables (h : m.Unshadowed) {d : Declaration}
    (hd : ⟨d, false⟩ ∈ m.declarations) (hkind : d.kind ≠ .variable) :
    d.name ∉ m.outerVariables.map (·.name) := by
  intro hx
  obtain ⟨e, he, hname⟩ := List.mem_map.mp hx
  obtain ⟨he, hvariable⟩ := List.mem_filter.mp he
  have hsame := List.inj_on_of_nodup_map h.1 he (List.mem_filter.mpr ⟨hd, rfl⟩) hname
  rw [hsame] at hvariable
  exact hkind (eq_of_beq hvariable)

/-- What a table that has the declarations of a module says of one of them. -/
theorem Module.of_mem_declarations (htable : t.declared = m.declarations) {e : Declared}
    (he : e ∈ m.declarations) :
    t.isVariable e.number = (e.kind == .variable) ∧ t.isLocal e.number = e.inside ∧
      t.nameOf e.number = e.name := by
  rw [← htable] at he
  obtain ⟨scope, hsymbol, hinside⟩ := SymbolTable.mem_declared he
  rw [SymbolTable.isVariable, SymbolTable.isLocal, SymbolTable.nameOf, hsymbol]
  exact ⟨rfl, hinside, rfl⟩

/-- A name from outside functions is not the name of a variable of the active call. -/
theorem Agrees.locals_of_outer (h : Agrees m own st c) (howns : ∀ es ∈ own, m.Owns es)
    {x : String} (hx : x ∈ m.outerNames) : st.locals.bind (fun vars => vars.find? x) = none := by
  cases own with
  | none =>
    obtain ⟨hlocals, -⟩ := h.own
    rw [hlocals]
    rfl
  | some es =>
    obtain ⟨vars, cells, hlocals, -, hmirrors⟩ := h.own
    rw [hlocals]
    refine hmirrors.names x fun hmem => ?_
    obtain ⟨e, he, rfl⟩ := List.mem_map.mp hmem
    exact (howns es rfl).clear e he hx

/-- Reading a name is reading the cell of the declaration that it stands for. -/
theorem Agrees.read_eq (h : Agrees m own st c) (hm : m.Unshadowed)
    (htable : t.declared = m.declarations) (howns : ∀ es ∈ own, m.Owns es) {d : Declaration}
    (hd : m.Knows own d) : st.read d.name = c.read t d.number := by
  unfold Store.read Cells.read
  rcases hd with hd | ⟨es, rfl, hd, hkind⟩
  · obtain ⟨hvariable, hlocal, -⟩ := Module.of_mem_declarations htable hd
    dsimp only at hvariable hlocal
    rw [h.locals_of_outer howns (Module.mem_outerNames hd), hvariable, hlocal]
    by_cases hkind : d.kind = .variable
    · rw [if_pos (beq_iff_eq.mpr hkind), if_neg Bool.false_ne_true,
        ← h.outer.values _ (Module.mem_outerVariables hd hkind)]
    · have hnone := h.outer.names d.name (hm.not_mem_outerVariables hd hkind)
      rw [if_neg (fun hbeq => hkind (eq_of_beq hbeq)), hnone]
      rfl
  · -- If the call has no value for the name, there is none outside functions either.
    have hes := howns es rfl
    obtain ⟨hvariable, hlocal, -⟩ := Module.of_mem_declarations htable (hes.declared hd)
    dsimp only at hvariable hlocal
    obtain ⟨vars, cells, hlocals, hown, hmirrors⟩ := h.own
    have hvalue : vars.find? d.name = cells.find? d.number := hmirrors.values _ hd
    have hnone := h.outer.names d.name (Module.not_mem_outerVariables (hes.clear _ hd))
    rw [hvariable, hlocal, if_pos (beq_iff_eq.mpr hkind), if_pos rfl, hlocals, hown,
      Option.bind_some, Option.bind_some, hvalue]
    cases cells.find? d.number with
    | none =>
      rw [hnone]
    | some v => rfl

/-- Writing the variable and the cell of a declaration. -/
theorem Agrees.write (h : Agrees m own st c) (hm : m.Unshadowed)
    (htable : t.declared = m.declarations) (howns : ∀ es ∈ own, m.Owns es) {e : Declared}
    (he : e ∈ own.getD m.declarations) (hinside : e.inside = own.isSome)
    (hkind : e.kind = .variable) (v : Value) :
    Agrees m own (st.write e.name v) (c.write t e.number v) := by
  unfold Store.write Cells.write
  cases own with
  | none =>
    obtain ⟨hlocals, hown⟩ := h.own
    -- Outside of calls only variables outside of functions are declared.
    obtain ⟨-, hlocal, -⟩ := Module.of_mem_declarations htable he
    obtain ⟨d, inside⟩ := e
    obtain rfl : inside = false := hinside
    rw [hlocals, hlocal, if_neg Bool.false_ne_true]
    exact {
      outer := h.outer.insert hm.apart (Module.mem_outerVariables he hkind) v
      globals_ordered := h.globals_ordered.insert ..
      shared_ordered := h.shared_ordered.insert ..
      printed := h.printed
      screen := h.screen
      input := h.input
      own := ⟨rfl, hown⟩ }
  | some es =>
    obtain ⟨vars, cells, hlocals, hown, hmirrors⟩ := h.own
    have hes := howns es rfl
    obtain ⟨-, hlocal, -⟩ := Module.of_mem_declarations htable (hes.declared he)
    rw [hlocals, hlocal, hinside, Option.isSome_some, if_pos rfl, hown]
    exact { h with own := ⟨_, _, rfl, rfl, hmirrors.insert hes.apart he v⟩ }

/-- The symbol of an outer variable has its name. -/
theorem Module.nameOf_outer (htable : t.declared = m.declarations) {e : Declared}
    (he : e ∈ m.outerVariables) : t.nameOf e.number = e.name := by
  have hmem := List.mem_of_mem_filter (List.mem_of_mem_filter he)
  exact (Module.of_mem_declarations htable hmem).2.2

/-- The cells outside calls, under the names of their symbols, have the values of the variables. -/
theorem Shares.mem_named_iff (h : Shares m st c) (htable : t.declared = m.declarations)
    {x : String} {v : Value} :
    (x, v) ∈ c.shared.entries.map (fun e => (t.nameOf e.1, e.2)) ↔
      st.globals.find? x = some v := by
  rw [h.outer.find?_name]
  constructor
  · intro hmem
    obtain ⟨⟨k, w⟩, hkw, hsame⟩ := List.mem_map.mp hmem
    cases hsame
    have hfind := h.shared_ordered.find?_of_mem hkw
    obtain ⟨e, he, rfl⟩ := h.outer.exists_number hfind
    exact ⟨e, he, (Module.nameOf_outer htable he).symm, hfind⟩
  · rintro ⟨e, he, rfl, hfind⟩
    refine List.mem_map.mpr ⟨_, SortedMap.mem_entries_of_find? hfind, ?_⟩
    rw [Module.nameOf_outer htable he]

/-- If variables and cells hold the same values, the cells under the names of their symbols are the
variables. -/
theorem Shares.globals_eq (h : Shares m st c) (htable : t.declared = m.declarations) :
    st.globals = .ofList (c.shared.entries.map fun e => (t.nameOf e.1, e.2)) := by
  have hunique : ∀ x v w, (x, v) ∈ c.shared.entries.map (fun e => (t.nameOf e.1, e.2)) →
      (x, w) ∈ c.shared.entries.map (fun e => (t.nameOf e.1, e.2)) → v = w := by
    intro x v w hv hw
    rw [h.mem_named_iff htable] at hv hw
    exact Option.some.inj (hv.symm.trans hw)
  refine SortedMap.Ordered.ext h.globals_ordered
    (SortedMap.Ordered.foldl_insert _ SortedMap.ordered_empty) fun x => ?_
  ext v
  rw [SortedMap.find?_ofList hunique, h.mem_named_iff htable]

/-- The same can be seen of a store and of cells. -/
theorem Shares.observe_eq (h : Shares m st c) (htable : t.declared = m.declarations)
    (fault : Option Fault) : st.observe fault = c.observe t fault := by
  rw [Store.observe, Cells.observe, h.globals_eq htable, h.printed, h.screen, h.input]

end Agreement

end Scriptlet
