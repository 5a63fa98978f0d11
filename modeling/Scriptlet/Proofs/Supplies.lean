import Mathlib.Data.List.Nodup
import Scriptlet.Proofs.Safety
import Scriptlet.Proofs.Scoping

/-!
# Which variables have values

Every instruction of a generated program has its supply, which is read off the tree: the names of
the variables that have a value whenever the machine comes to the instruction.  A `let` adds its
name, a function starts with its parameters and with what there was at its definition, and behind a
block there is what there was before it.

An instruction keeps to the supplies if it leads only to instructions with no larger supply, and the
loads of a part of a program are tracked if the variables that they use are supplied
(`Program.Tracked`).  This is proved here for expressions.
-/

namespace Scriptlet

/-! ## Supplies -/

/-- The names of the variables that have a value whenever the machine comes to an instruction: those
of the call at hand, if the instruction belongs to a function, and those outside all calls. -/
structure Supply where
  locals : Option (List String)
  globals : List String

namespace Supply

/-- What a program starts with. -/
def empty : Supply := ⟨none, []⟩

/-- All names that have a value. -/
def names (n : Supply) : List String := n.locals.getD [] ++ n.globals

/-- One more name has a value. -/
def store (n : Supply) (name : String) : Supply :=
  match n.locals with
  | none => ⟨none, name :: n.globals⟩
  | some names => ⟨some (name :: names), n.globals⟩

/-- What a function starts with. -/
def entered (n : Supply) (params : List String) : Supply := ⟨some params, n.globals⟩

/-- What there is behind a statement. -/
def after (n : Supply) : Stmt → Supply
  | .letStmt _ name (some _) => n.store name
  | _ => n

/-- In the same sort of place, no further names have a value. -/
structure Within (n n' : Supply) : Prop where
  place : n.locals.isSome = n'.locals.isSome
  locals : n.locals.getD [] ⊆ n'.locals.getD []
  globals : n.globals ⊆ n'.globals

theorem Within.refl (n : Supply) : n.Within n := ⟨rfl, List.Subset.refl _, List.Subset.refl _⟩

theorem Within.trans {n n' n'' : Supply} (h : n.Within n') (h' : n'.Within n'') : n.Within n'' :=
  ⟨h.place.trans h'.place, List.Subset.trans h.locals h'.locals,
    List.Subset.trans h.globals h'.globals⟩

/-- A name that gets a value takes none from the others. -/
theorem within_store (n : Supply) (name : String) : n.Within (n.store name) := by
  obtain ⟨locals, globals⟩ := n
  cases locals with
  | none => exact ⟨rfl, List.Subset.refl _, List.subset_cons_self ..⟩
  | some names => exact ⟨rfl, List.subset_cons_self .., List.Subset.refl _⟩

/-- There is at least as much behind a statement as before it. -/
theorem within_after (n : Supply) (s : Stmt) : n.Within (n.after s) := by
  unfold after
  split
  · exact n.within_store _
  · exact .refl n

/-- Behind a store the name has a value, and so have those before it. -/
theorem mem_names_store (n : Supply) (name x : String) :
    x ∈ (n.store name).names ↔ x = name ∨ x ∈ n.names := by
  obtain ⟨locals, globals⟩ := n
  cases locals <;> simp [store, names]

/-- In a function its parameters have values, and the variables outside of all calls. -/
theorem mem_names_entered (n : Supply) (params : List String) (x : String) :
    x ∈ (n.entered params).names ↔ x ∈ params ∨ x ∈ n.globals := by
  rw [entered, names, List.mem_append]
  rfl

/-- Outside of functions a store makes no local variable. -/
theorem locals_store_of_none {n : Supply} (h : n.locals = none) (name : String) :
    (n.store name).locals = none := by
  rw [store, h]

end Supply

mutual

/-- The supplies of the instructions of a statement. -/
@[simp] def Stmt.supplies (n : Supply) : Stmt → List Supply
  | .letStmt _ _ none => []
  | .letStmt _ _ (some value) => List.replicate (value.width + 1) n
  | .fnStmt _ _ params body =>
    n :: (Stmt.suppliesIn (n.entered params) body ++
      if endsWithReturn body then [] else [n.entered params])
  | .returnStmt _ value => List.replicate (Expr.width? value + 1) n
  | .breakStmt _ => [n]
  | .continueStmt _ => [n]
  | .ifStmt _ cond body => List.replicate (cond.width + 1) n ++ Stmt.suppliesIn n body
  | .ifElseStmt _ cond body other =>
    List.replicate (cond.width + 1) n ++ (Stmt.suppliesIn n body ++ n :: Stmt.suppliesIn n other)
  | .whileStmt _ cond body =>
    List.replicate (cond.width + 1) n ++ (Stmt.suppliesIn n body ++ [n])
  | .exprStmt _ value => List.replicate (value.width + 1) n

/-- The supplies of the instructions of some statements. -/
@[simp] def Stmt.suppliesIn (n : Supply) : List Stmt → List Supply
  | [] => []
  | s :: rest => s.supplies n ++ Stmt.suppliesIn (n.after s) rest

end

/-- The supply of every offset of the program of a module. -/
def Module.supply (m : Module) (i : Nat) : Supply :=
  (Stmt.suppliesIn .empty m.body).getD i .empty

mutual

/-- Every instruction of a statement has a supply. -/
theorem Stmt.length_supplies (n : Supply) : ∀ s : Stmt, (s.supplies n).length = s.width
  | .letStmt _ _ none => by rw [Stmt.supplies, Stmt.width, List.length_nil]
  | .letStmt _ _ (some value) => by rw [Stmt.supplies, Stmt.width, List.length_replicate]
  | .fnStmt _ _ params body => by
    rw [Stmt.supplies, Stmt.width, List.length_cons, List.length_append,
      Stmt.length_suppliesIn _ body]
    split <;> simp only [List.length_nil, List.length_singleton] <;> omega
  | .returnStmt _ value => by rw [Stmt.supplies, Stmt.width, List.length_replicate]
  | .breakStmt _ => by rw [Stmt.supplies, Stmt.width, List.length_singleton]
  | .continueStmt _ => by rw [Stmt.supplies, Stmt.width, List.length_singleton]
  | .ifStmt _ cond body => by
    rw [Stmt.supplies, Stmt.width, List.length_append, List.length_replicate,
      Stmt.length_suppliesIn n body]
  | .ifElseStmt _ cond body other => by
    rw [Stmt.supplies, Stmt.width, List.length_append, List.length_replicate, List.length_append,
      Stmt.length_suppliesIn n body, List.length_cons, Stmt.length_suppliesIn n other]
    omega
  | .whileStmt _ cond body => by
    rw [Stmt.supplies, Stmt.width, List.length_append, List.length_replicate, List.length_append,
      Stmt.length_suppliesIn n body, List.length_singleton]
    omega
  | .exprStmt _ value => by rw [Stmt.supplies, Stmt.width, List.length_replicate]

/-- Every instruction of a block has a supply. -/
theorem Stmt.length_suppliesIn (n : Supply) : ∀ ss : List Stmt,
    (Stmt.suppliesIn n ss).length = Stmt.widths ss
  | [] => by rw [Stmt.suppliesIn, Stmt.widths, List.length_nil]
  | s :: rest => by
    rw [Stmt.suppliesIn, Stmt.widths, List.length_append, Stmt.length_supplies n s,
      Stmt.length_suppliesIn _ rest]

end

/-! ## Declarations with values -/

/-- A statement is no declaration without a value. -/
def Stmt.initialised : Stmt → Bool
  | .letStmt _ _ none => false
  | _ => true

/-- All variables of a module are declared with values. -/
def Module.Initialised (m : Module) : Prop := ∀ x ∈ m.placed, x.stmt.initialised = true

instance (m : Module) : Decidable m.Initialised :=
  inferInstanceAs (Decidable (∀ x ∈ m.placed, x.stmt.initialised = true))

/-! ## Uses of names in the program -/

/-- An instruction that loads a variable, and the use of the name that it was generated for. -/
structure Load where
  offset : Nat
  node : Nat
  name : String
  deriving Repr, DecidableEq

mutual

/-- The instructions of an expression at an offset that load variables. -/
def Expr.loads : Expr → Nat → List Load
  | .literal _ _, _ => []
  | .name _ id x, a => [⟨a, id, x⟩]
  | .binary _ _ left right, a => left.loads a ++ right.loads (a + left.width)
  | .not _ operand, a => operand.loads a
  | .call _ _ _ args, a => Expr.loadsIn args a

/-- The same of some expressions. -/
def Expr.loadsIn : List Expr → Nat → List Load
  | [], _ => []
  | e :: rest, a => e.loads a ++ Expr.loadsIn rest (a + e.width)

end

/-- The same of an expression that may be missing. -/
def Expr.loads? : Option Expr → Nat → List Load
  | none, _ => []
  | some e, a => e.loads a

mutual

/-- The instructions of a statement at an offset that load variables. -/
@[simp] def Stmt.loads : Stmt → Nat → List Load
  | .letStmt _ _ value, a => Expr.loads? value a
  | .fnStmt _ _ _ body, a => Stmt.loadsIn body (a + 1)
  | .returnStmt _ value, a => Expr.loads? value a
  | .breakStmt _, _ => []
  | .continueStmt _, _ => []
  | .ifStmt _ cond body, a => cond.loads a ++ Stmt.loadsIn body (a + cond.width + 1)
  | .ifElseStmt _ cond body other, a =>
    cond.loads a ++ Stmt.loadsIn body (a + cond.width + 1) ++
      Stmt.loadsIn other (a + cond.width + 1 + Stmt.widths body + 1)
  | .whileStmt _ cond body, a => cond.loads a ++ Stmt.loadsIn body (a + cond.width + 1)
  | .exprStmt _ value, a => value.loads a

/-- The same of some statements. -/
@[simp] def Stmt.loadsIn : List Stmt → Nat → List Load
  | [], _ => []
  | s :: rest, a => s.loads a ++ Stmt.loadsIn rest (a + s.width)

end

/-- The instructions of the program of a module that load variables. -/
def Module.loads (m : Module) : List Load := Stmt.loadsIn m.body 0

/-! ## Instructions that keep to the supplies -/

/-- An instruction leads to none with a larger supply than it leaves. -/
structure Program.TracksAt (p : Program) (supply : Nat → Supply) (i : Nat) (x : Instruction) :
    Prop where
  next : x.op ≠ .storeVar → ∀ j ∈ x.successors i, (supply j).Within (supply i)
  store : x.op = .storeVar → ∃ name, p.variableNames[x.arg1]? = some name ∧
    (supply (i + 1)).Within ((supply i).store name)
  /-- A function is entered with its parameters, and with what the caller has outside all calls. -/
  call : x.op = .call → ∀ {name entry}, p.constants[x.arg1]? = some (.str name) →
    Builtin.ofName? name = none → p.function? name = some entry →
      (supply entry.offset).Within ((supply i).entered entry.params)

/-- All instructions between two offsets keep to the supplies, and those among them that load
variables are known, with the declarations that their names are uses of. -/
structure Program.Tracked (p : Program) (supply : Nat → Supply) (uses : List (Nat × Declaration))
    (loads : List Load) (a b : Nat) : Prop where
  tracks : ∀ i, a ≤ i → i < b → ∃ x, p.code[i]? = some x ∧ p.TracksAt supply i x ∧
    (x.op = .loadVar → ∃ l ∈ loads, l.offset = i)
  loads : ∀ l ∈ loads, p.VariableAt .loadVar l.name l.offset ∧ ∃ d, (l.node, d) ∈ uses ∧
    (d.kind = .variable → l.name ∈ (supply l.offset).names)

/-- What can be seen from a place is there when the machine comes to it: the variables have values,
and the functions are in the table and start with no more than there is. -/
structure Program.Backs (p : Program) (supply : Nat → Supply) (sight : Sight) (n : Supply) :
    Prop where
  nonempty : sight ≠ []
  outside : sight.length = 1 → n.locals = none
  values : ∀ {x}, sight.kind? x = some .variable → x ∈ n.names
  functions : ∀ {f params}, sight.kind? f = some (.function params) →
    ∃ entry, p.function? f = some entry ∧ (supply entry.offset).Within (n.entered entry.params)
  builtins : ∀ {f}, sight.kind? f = some .builtin → (Builtin.ofName? f).isSome = true

section Tracked

variable {p : Program} {supply : Nat → Supply} {uses uses' : List (Nat × Declaration)}
  {loads loads' : List Load} {a b c : Nat}

namespace Program.Tracked

theorem nil (a : Nat) : p.Tracked supply uses [] a a :=
  ⟨fun _ h h' => absurd h' (Nat.not_lt.mpr h), nofun⟩

/-- Code behind other code keeps to the supplies if both parts do. -/
theorem append (h : p.Tracked supply uses loads a b) (h' : p.Tracked supply uses' loads' b c) :
    p.Tracked supply (uses ++ uses') (loads ++ loads') a c := by
  refine ⟨fun i hai hic => ?_, fun l hl => ?_⟩
  · rcases Nat.lt_or_ge i b with hib | hib
    · obtain ⟨x, hcode, htracks, hload⟩ := h.tracks i hai hib
      refine ⟨x, hcode, htracks, fun hop => ?_⟩
      obtain ⟨l, hl, hoffset⟩ := hload hop
      exact ⟨l, List.mem_append_left _ hl, hoffset⟩
    · obtain ⟨x, hcode, htracks, hload⟩ := h'.tracks i hib hic
      refine ⟨x, hcode, htracks, fun hop => ?_⟩
      obtain ⟨l, hl, hoffset⟩ := hload hop
      exact ⟨l, List.mem_append_right _ hl, hoffset⟩
  · rcases List.mem_append.mp hl with hl | hl
    · obtain ⟨hat, d, hd, hkind⟩ := h.loads l hl
      exact ⟨hat, d, List.mem_append_left _ hd, hkind⟩
    · obtain ⟨hat, d, hd, hkind⟩ := h'.loads l hl
      exact ⟨hat, d, List.mem_append_right _ hd, hkind⟩

/-- More uses of names can be known. -/
theorem mono (h : p.Tracked supply uses loads a b) (huses : uses ⊆ uses') :
    p.Tracked supply uses' loads a b := by
  refine ⟨h.tracks, fun l hl => ?_⟩
  obtain ⟨hat, d, hd, hkind⟩ := h.loads l hl
  exact ⟨hat, d, huses hd, hkind⟩

/-- A single instruction that loads no variable. -/
theorem one {x : Instruction} (hcode : p.code[a]? = some x) (h : p.TracksAt supply a x)
    (hload : x.op ≠ .loadVar) : p.Tracked supply uses [] a (a + 1) := by
  refine ⟨fun i hai hia => ?_, nofun⟩
  obtain rfl : i = a := by omega
  exact ⟨x, hcode, h, fun hop => absurd hop hload⟩

/-- One more instruction behind, which loads no variable. -/
theorem concat (h : p.Tracked supply uses loads a b) {x : Instruction}
    (hcode : p.code[b]? = some x) (h' : p.TracksAt supply b x) (hload : x.op ≠ .loadVar) :
    p.Tracked supply uses loads a (b + 1) := by
  have hlast : p.Tracked supply [] [] b (b + 1) := one hcode h' hload
  have hall := h.append hlast
  rwa [List.append_nil, List.append_nil] at hall

end Program.Tracked

namespace Program.TracksAt

variable {i : Nat} {x : Instruction}

/-- An instruction that stores no variable and calls nothing. -/
theorem plain (hstore : x.op ≠ .storeVar) (hcall : x.op ≠ .call)
    (hnext : ∀ j ∈ x.successors i, (supply j).Within (supply i)) : p.TracksAt supply i x :=
  ⟨fun _ => hnext, fun h => absurd h hstore, fun h => absurd h hcall⟩

/-- The same of an instruction that goes on behind itself. -/
theorem step (hstore : x.op ≠ .storeVar) (hcall : x.op ≠ .call) (hnext : x.successors i = [i + 1])
    (h : (supply (i + 1)).Within (supply i)) : p.TracksAt supply i x := by
  refine .plain hstore hcall fun j hj => ?_
  rw [hnext] at hj
  rwa [List.mem_singleton.mp hj]

end Program.TracksAt

/-! ## What can be seen is there -/

namespace Sight

/-- A name that can be seen is the one that was just declared, or could be seen before. -/
theorem kind?_add {sight : Sight} {name x : String} {kind kind' : SymbolKind}
    (h : (sight.add name kind).kind? x = some kind') :
    x = name ∧ kind' = kind ∨ x ≠ name ∧ sight.kind? x = some kind' := by
  cases sight with
  | nil => cases h
  | cons scope outer =>
    rw [add, List.modifyHead_cons, kind?, List.findSome?_cons] at h
    dsimp only at h
    by_cases hx : x = name
    · rw [if_pos hx] at h
      cases h
      exact .inl ⟨hx, rfl⟩
    · rw [if_neg hx] at h
      exact .inr ⟨hx, by rw [kind?, List.findSome?_cons]; exact h⟩

/-- The names of a fresh scope hide those around it. -/
theorem kind?_enter (sight : Sight) (names : List String) (kind : SymbolKind) (x : String) :
    (sight.enter names kind).kind? x = if x ∈ names then some kind else sight.kind? x := by
  rw [enter, kind?, List.findSome?_cons]
  split <;> simp_all [kind?]

end Sight

namespace Program.Backs

variable {sight : Sight} {n : Supply}

/-- Opening a scope without names shows nothing new. -/
theorem fresh (h : p.Backs supply sight n) : p.Backs supply sight.fresh n := by
  refine ⟨List.cons_ne_nil _ _, fun hlen => ?_, h.values, h.functions, h.builtins⟩
  have hnil := List.eq_nil_of_length_eq_zero (Nat.succ.inj hlen)
  exact absurd hnil h.nonempty

/-- A variable is declared with a value. -/
theorem add_variable (h : p.Backs supply sight n) (name : String) :
    p.Backs supply (sight.add name .variable) (n.store name) := by
  refine ⟨?_, fun hlen => ?_, fun hx => ?_, fun hf => ?_, fun hf => ?_⟩
  · rw [Sight.add, ne_eq, List.modifyHead_eq_nil_iff]
    exact h.nonempty
  · rw [Sight.add, List.length_modifyHead] at hlen
    exact Supply.locals_store_of_none (h.outside hlen) name
  · rw [Supply.mem_names_store]
    exact (Sight.kind?_add hx).imp And.left fun hx => h.values hx.2
  · rcases Sight.kind?_add hf with ⟨-, hkind⟩ | ⟨-, hf⟩
    · cases hkind
    · obtain ⟨entry, hentry, hwithin⟩ := h.functions hf
      exact ⟨entry, hentry, hwithin.place, hwithin.locals,
        List.Subset.trans hwithin.globals (n.within_store name).globals⟩
  · rcases Sight.kind?_add hf with ⟨-, hkind⟩ | ⟨-, hf⟩
    · cases hkind
    · exact h.builtins hf

/-- A function is defined, and it is in the table. -/
theorem add_function (h : p.Backs supply sight n) {name : String} {params : List String}
    {entry : FunctionEntry} (hentry : p.function? name = some entry)
    (hwithin : (supply entry.offset).Within (n.entered entry.params)) :
    p.Backs supply (sight.add name (.function params)) n := by
  refine ⟨?_, fun hlen => ?_, fun hx => ?_, fun hf => ?_, fun hf => ?_⟩
  · rw [Sight.add, ne_eq, List.modifyHead_eq_nil_iff]
    exact h.nonempty
  · rw [Sight.add, List.length_modifyHead] at hlen
    exact h.outside hlen
  · rcases Sight.kind?_add hx with ⟨-, hkind⟩ | ⟨-, hx⟩
    · cases hkind
    · exact h.values hx
  · rcases Sight.kind?_add hf with ⟨rfl, -⟩ | ⟨-, hf⟩
    · exact ⟨entry, hentry, hwithin⟩
    · exact h.functions hf
  · rcases Sight.kind?_add hf with ⟨-, hkind⟩ | ⟨-, hf⟩
    · cases hkind
    · exact h.builtins hf

/-- The body of a function sees its parameters, and what can be seen outside all calls. -/
theorem enter (h : p.Backs supply sight n) (hn : n.locals = none) (params : List String) :
    p.Backs supply (sight.enter params .variable) (n.entered params) := by
  refine ⟨List.cons_ne_nil _ _, fun hlen => ?_, fun {x} hx => ?_, fun {f _} hf => ?_,
    fun {f} hf => ?_⟩
  · have hnil := List.eq_nil_of_length_eq_zero (Nat.succ.inj hlen)
    exact absurd hnil h.nonempty
  · rw [Sight.kind?_enter] at hx
    rw [Supply.mem_names_entered]
    by_cases hmem : x ∈ params
    · exact .inl hmem
    · rw [if_neg hmem] at hx
      have hnames := h.values hx
      rw [Supply.names, hn] at hnames
      exact .inr hnames
  · rw [Sight.kind?_enter] at hf
    split at hf
    · cases hf
    · exact h.functions hf
  · rw [Sight.kind?_enter] at hf
    split at hf
    · cases hf
    · exact h.builtins hf

/-- A call without faults leads to a function that starts with no more than there is. -/
theorem within_of_call (h : p.Backs supply sight n) {f : String} {kind : SymbolKind} {args : Nat}
    (hkind : sight.kind? f = some kind) (htakes : kind.Takes args) {entry : FunctionEntry}
    (hbuiltin : Builtin.ofName? f = none) (hentry : p.function? f = some entry) :
    (supply entry.offset).Within (n.entered entry.params) := by
  cases kind with
  | «variable» => exact htakes.elim
  | builtin =>
    have hsome := h.builtins hkind
    rw [hbuiltin] at hsome
    cases hsome
  | function params =>
    obtain ⟨entry', hentry', hwithin⟩ := h.functions hkind
    rw [hentry] at hentry'
    cases hentry'
    exact hwithin

/-- A module starts with the built-in functions in sight. -/
theorem initial : p.Backs supply (Sight.enter [] Builtin.names .builtin) .empty := by
  have hkind : ∀ {x kind}, (Sight.enter [] Builtin.names .builtin).kind? x = some kind →
      x ∈ Builtin.names ∧ kind = .builtin := by
    intro x kind hx
    rw [Sight.kind?_enter] at hx
    split at hx
    · next hmem =>
      cases hx
      exact ⟨hmem, rfl⟩
    · cases hx
  have hnames : ∀ name ∈ Builtin.names, (Builtin.ofName? name).isSome = true := by decide
  refine ⟨List.cons_ne_nil _ _, fun _ => rfl, fun hx => ?_, fun hf => ?_, fun hf => ?_⟩
  · cases (hkind hx).2
  · cases (hkind hf).2
  · exact hnames _ (hkind hf).1

end Program.Backs

/-! ## Expressions -/

/-- All instructions of an expression have the supply of its place. -/
theorem noted_replicate {n : Supply} {k : Nat} :
    Noted supply a (List.replicate k n) ↔ ∀ i, a ≤ i → i < a + k → supply i = n := by
  induction k generalizing a with
  | zero => exact iff_of_true trivial fun i h h' => absurd h' (Nat.not_lt.mpr h)
  | succ k ih =>
    rw [List.replicate_succ, Noted, ih]
    constructor
    · rintro ⟨hfirst, hrest⟩ i hai hia
      rcases Nat.eq_or_lt_of_le hai with rfl | hlt
      · exact hfirst
      · exact hrest i hlt (by omega)
    · intro h
      exact ⟨h a (Nat.le_refl a) (by omega), fun i hai hia => h i (by omega) (by omega)⟩

/-- Where the supply stays the same, nothing is needed to go on. -/
theorem within_of_constant {n : Supply} {i : Nat} (h : ∀ i, a ≤ i → i ≤ b → supply i = n)
    (hai : a ≤ i) (hib : i < b) : (supply (i + 1)).Within (supply i) := by
  rw [h i hai (Nat.le_of_lt hib), h (i + 1) (Nat.le_succ_of_le hai) hib]
  exact .refl n

mutual

/-- The instructions of an expression keep to one supply. -/
theorem Expr.tracked {same : Literal → Literal → Prop} {env : Environment} {n : Supply}
    (hb : p.Backs supply env.sight n) : ∀ (e : Expr) (a : Nat), e.At p same a →
      (env.expr e).faults = [] → (∀ i, a ≤ i → i ≤ a + e.width → supply i = n) →
      p.Tracked supply (env.expr e).uses (e.loads a) a (a + e.width)
  | .literal _ _, a, h, _, hn => by
    rw [Expr.At] at h
    obtain ⟨k, found, hcode, -⟩ := h
    rw [Expr.width] at hn ⊢
    rw [Expr.loads]
    have hnext := within_of_constant hn (Nat.le_refl a) (Nat.lt_succ_self a)
    exact .one hcode (.step nofun nofun rfl hnext) nofun
  | .name span id x, a, h, hf, hn => by
    rw [Expr.At] at h
    rw [Expr.width] at hn ⊢
    rw [Environment.expr, Environment.reference] at hf ⊢
    have ha : supply a = n := hn a (Nat.le_refl a) (by omega)
    -- There is no fault, so the name can be seen.
    obtain ⟨d, hvisible⟩ : ∃ d, env.visible? x = some d := by
      cases hvisible : env.visible? x with
      | some d => exact ⟨d, rfl⟩
      | none =>
        rw [hvisible] at hf
        cases hf
    rw [hvisible, Expr.loads]
    refine ⟨fun i hai hia => ?_, fun l hl => ?_⟩
    · obtain rfl : i = a := by omega
      obtain ⟨k, hcode, hname⟩ := h
      have hnext := within_of_constant hn (Nat.le_refl i) hia
      exact ⟨_, hcode, .step nofun nofun rfl hnext, fun _ => ⟨_, List.mem_singleton.mpr rfl, rfl⟩⟩
    · rw [List.mem_singleton.mp hl]
      refine ⟨h, d, List.mem_singleton.mpr rfl, fun hkind => ?_⟩
      rw [ha]
      refine hb.values ?_
      rw [Environment.kind?_sight, hvisible, Option.map_some, hkind]
  | .binary _ op left right, a, h, hf, hn => by
    rw [Expr.At] at h
    obtain ⟨hl, hr, hop⟩ := h
    rw [Environment.expr, Environment.nil_of_faults_append] at hf
    rw [Expr.width, ← Nat.add_assoc, ← Nat.add_assoc] at hn ⊢
    rw [Environment.expr, Expr.loads]
    have hleft := Expr.tracked hb left a hl hf.1 fun i hai hia => hn i hai (by omega)
    have hright := Expr.tracked hb right _ hr hf.2 fun i hai hia => hn i (by omega) (by omega)
    have hnext := within_of_constant hn (by omega) (Nat.lt_succ_self (a + left.width + right.width))
    refine (hleft.append hright).concat hop (.step ?_ ?_ ?_ hnext) ?_
    · cases op <;> nofun
    · cases op <;> nofun
    · cases op <;> rfl
    · cases op <;> nofun
  | .not _ operand, a, h, hf, hn => by
    rw [Expr.At] at h
    rw [Environment.expr] at hf ⊢
    rw [Expr.width, ← Nat.add_assoc] at hn ⊢
    rw [Expr.loads]
    have hoperand := Expr.tracked hb operand a h.1 hf fun i hai hia => hn i hai (by omega)
    have hnext := within_of_constant hn (by omega) (Nat.lt_succ_self (a + operand.width))
    exact hoperand.concat h.2 (.step nofun nofun rfl hnext) nofun
  | .call span id f args, a, h, hf, hn => by
    rw [Expr.At] at h
    obtain ⟨hargs, k, hcode, hconst⟩ := h
    have hscoped := (Environment.faults_expr _).mp hf
    rw [Expr.WellScoped] at hscoped
    obtain ⟨-, kind, hkind, htakes⟩ := hscoped
    rw [Environment.expr, Environment.nil_of_faults_append] at hf
    rw [Expr.width, ← Nat.add_assoc] at hn ⊢
    rw [Environment.expr, Expr.loads]
    have hall := Expr.tracked_all hb args a hargs hf.1 fun i hai hia => hn i hai (by omega)
    have hi : supply (a + Expr.widths args) = n := hn _ (by omega) (by omega)
    have hnext := within_of_constant hn (by omega) (Nat.lt_succ_self (a + Expr.widths args))
    -- A call leads behind itself and, unless it is built in, into the function that it names.
    have hcall : p.TracksAt supply (a + Expr.widths args) ⟨.call, k, args.length⟩ := by
      refine ⟨fun _ j hj => ?_, nofun, fun _ name entry hname hbuiltin hentry => ?_⟩
      · rw [List.mem_singleton.mp hj]
        exact hnext
      · rw [hconst] at hname
        cases hname
        rw [hi]
        exact hb.within_of_call hkind htakes hbuiltin hentry
    rw [← List.append_nil (Expr.loadsIn args a)]
    exact hall.append (.one hcode hcall nofun)

/-- The same of some expressions. -/
theorem Expr.tracked_all {same : Literal → Literal → Prop} {env : Environment} {n : Supply}
    (hb : p.Backs supply env.sight n) : ∀ (es : List Expr) (a : Nat), Expr.AllAt p same es a →
      (env.exprs es).faults = [] → (∀ i, a ≤ i → i ≤ a + Expr.widths es → supply i = n) →
      p.Tracked supply (env.exprs es).uses (Expr.loadsIn es a) a (a + Expr.widths es)
  | [], a, _, _, _ => by
    rw [Expr.widths, Expr.loadsIn]
    exact .nil a
  | e :: rest, a, h, hf, hn => by
    rw [Expr.AllAt] at h
    rw [Environment.exprs, Environment.nil_of_faults_append] at hf
    rw [Expr.widths, ← Nat.add_assoc] at hn ⊢
    rw [Environment.exprs, Expr.loadsIn]
    have he := Expr.tracked hb e a h.1 hf.1 fun i hai hia => hn i hai (by omega)
    exact he.append (Expr.tracked_all hb rest _ h.2 hf.2 fun i hai hia => hn i (by omega) hia)

end

end Tracked

end Scriptlet
