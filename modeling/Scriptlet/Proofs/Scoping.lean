import Scriptlet.Proofs.Environment

/-!
# The rules of scoping

A module is well scoped if every name it uses can be seen, every call fits what it calls, no scope
declares a name twice, functions are defined in the global scope only, and `break`, `continue` and
`return` stand where they have a meaning.  The names of a module can be resolved exactly if it is
well scoped, and otherwise all faults are listed (`Module.resolve_checked`).
-/

namespace Scriptlet

/-! ## Well-scoped modules -/

/-- What can be seen from a place: for every scope around it, the innermost first, what its names
stand for. -/
abbrev Sight := List (String → Option SymbolKind)

namespace Sight

/-- What a name stands for in the innermost scope that has it. -/
def kind? (sight : Sight) (name : String) : Option SymbolKind :=
  sight.findSome? fun scope => scope name

/-- What a name stands for in the innermost scope. -/
def here? (sight : Sight) (name : String) : Option SymbolKind :=
  sight.head?.bind fun scope => scope name

/-- A name is declared in the innermost scope. -/
def add (sight : Sight) (name : String) (kind : SymbolKind) : Sight :=
  sight.modifyHead fun scope n => if n = name then some kind else scope n

/-- A scope without names is opened. -/
def fresh (sight : Sight) : Sight := (fun _ => none) :: sight

/-- A scope is opened in which some names are all of one kind. -/
def enter (sight : Sight) (names : List String) (kind : SymbolKind) : Sight :=
  (fun n => if n ∈ names then some kind else none) :: sight

/-- What can be seen behind a statement. -/
def after (sight : Sight) : Stmt → Sight
  | .letStmt _ name _ => sight.add name .variable
  | .fnStmt _ name params _ => sight.add name (.function params)
  | _ => sight

end Sight

/-- What a symbol can be called with: a function with as many arguments as it has parameters, and a
built-in function with any number. -/
def SymbolKind.Takes (args : Nat) : SymbolKind → Prop
  | .variable => False
  | .builtin => True
  | .function params => params.length = args

mutual

/-- All names of an expression can be seen, and all its calls fit. -/
def Expr.WellScoped (sight : Sight) : Expr → Prop
  | .literal _ _ => True
  | .name _ _ x => sight.kind? x ≠ none
  | .binary _ _ left right => left.WellScoped sight ∧ right.WellScoped sight
  | .not _ operand => operand.WellScoped sight
  | .call _ _ f args =>
    Expr.AllWellScoped sight args ∧ ∃ kind, sight.kind? f = some kind ∧ kind.Takes args.length

/-- The same of some expressions. -/
def Expr.AllWellScoped (sight : Sight) : List Expr → Prop
  | [] => True
  | e :: rest => e.WellScoped sight ∧ Expr.AllWellScoped sight rest

end

mutual

/-- A statement keeps to the rules of scoping. -/
def Stmt.WellScoped (sight : Sight) (around : Surroundings) : Stmt → Prop
  | .letStmt _ name value =>
    -- The value does not see the name.
    (∀ e ∈ value, e.WellScoped sight) ∧ sight.here? name = none
  | .fnStmt _ name params body =>
    sight.length = 1 ∧ sight.here? name = none ∧ params.Nodup ∧
      -- The body sees the function, and has one scope with the parameters.
      Stmt.AllWellScoped ((sight.add name (.function params)).enter params .variable) ⟨0, true⟩ body
  | .returnStmt _ value => around.inFunction = true ∧ ∀ e ∈ value, e.WellScoped sight
  | .breakStmt _ => 0 < around.loops
  | .continueStmt _ => 0 < around.loops
  | .ifStmt _ cond body =>
    cond.WellScoped sight ∧ Stmt.AllWellScoped sight.fresh around body
  | .ifElseStmt _ cond body other =>
    cond.WellScoped sight ∧ Stmt.AllWellScoped sight.fresh around body ∧
      Stmt.AllWellScoped sight.fresh around other
  | .whileStmt _ cond body =>
    cond.WellScoped sight ∧ Stmt.AllWellScoped sight.fresh
      { around with loops := around.loops + 1 } body
  | .exprStmt _ value => value.WellScoped sight

/-- Statements keep to the rules of scoping, where each sees what the ones before it declare. -/
def Stmt.AllWellScoped (sight : Sight) (around : Surroundings) : List Stmt → Prop
  | [] => True
  | s :: rest => s.WellScoped sight around ∧ Stmt.AllWellScoped (sight.after s) around rest

end

/-- A module keeps to the rules of scoping. -/
def Module.WellScoped (m : Module) : Prop :=
  Stmt.AllWellScoped (Sight.enter [] Builtin.names .builtin) ⟨0, false⟩ m.body

/-! ## The checker decides the rules -/

namespace Environment

/-- What can be seen in an environment. -/
def sight (env : Environment) : Sight :=
  env.scopes.map fun scope name => (scope.find? name).map Declaration.kind

variable {env : Environment}

/-- What a name stands for is the kind of the declaration that is visible. -/
theorem kind?_sight (env : Environment) (name : String) :
    env.sight.kind? name = (env.visible? name).map Declaration.kind := by
  rw [Sight.kind?, sight, visible?]
  induction env.scopes with
  | nil => rfl
  | cons scope outer ih =>
    rw [List.map_cons, List.findSome?_cons, List.findSome?_cons]
    dsimp only
    cases scope.find? name with
    | none => exact ih
    | some d => rfl

/-- What a name stands for in the innermost scope is the kind of its declaration there. -/
theorem here?_sight (env : Environment) (name : String) :
    env.sight.here? name = (env.here? name).map Declaration.kind := by
  rw [Sight.here?, sight, here?]
  cases env.scopes <;> rfl

/-- A declaration is seen in the innermost scope. -/
theorem sight_declare (env : Environment) (name : String) (kind : SymbolKind) (span : Span) :
    (env.declare name kind span).sight = env.sight.add name kind := by
  unfold declare
  split
  · next hscopes => rw [sight, hscopes]; rfl
  · next scope outer hscopes =>
    rw [sight, sight, hscopes, Sight.add, List.map_cons, List.map_cons, List.modifyHead_cons]
    congr 1
    funext n
    rw [SortedMap.find?_insert]
    split <;> rfl

theorem sight_inner (env : Environment) : env.inner.sight = env.sight.fresh := rfl

theorem sight_behind (env inside : Environment) : (env.behind inside).sight = env.sight := rfl

/-- A declaration is no fault exactly if the innermost scope does not have the name, and then adds
it. -/
theorem faults_declaration (env : Environment) (name : String) (kind : SymbolKind) (span : Span)
    (fault : ScopeFault) :
    ((env.declaration name kind span fault).1.faults = [] ↔ env.sight.here? name = none) ∧
      ((env.declaration name kind span fault).1.faults = [] →
        (env.declaration name kind span fault).2.sight = env.sight.add name kind) := by
  rw [here?_sight]
  unfold declaration
  cases env.here? name with
  | some d => exact ⟨iff_of_false nofun nofun, nofun⟩
  | none => exact ⟨iff_of_true rfl rfl, fun _ => sight_declare env name kind span⟩

theorem nil_of_faults_append {f g : Findings} :
    (f ++ g).faults = [] ↔ f.faults = [] ∧ g.faults = [] := by
  rw [Findings.faults_append, List.append_eq_nil_iff]

/-- A check finds no fault if its condition does not hold. -/
theorem faults_faultIf {condition : Bool} {fault : ScopeFault} {span : Span} :
    (Findings.faultIf condition fault span).faults = [] ↔ condition = false := by
  cases condition with
  | true => exact iff_of_false (List.cons_ne_nil _ _) (by decide)
  | false => exact iff_of_true rfl rfl

/-- Parameters are no fault exactly if they are distinct and the innermost scope has none of them,
and then the scope has all of them. -/
theorem faults_parameters (function : String) (span : Span) : ∀ (params : List String)
    (env : Environment) (scope : String → Option SymbolKind) (outer : Sight),
    env.sight = scope :: outer →
    ((env.parameters function span params).1.faults = [] ↔
      params.Nodup ∧ ∀ p ∈ params, scope p = none) ∧
    ((env.parameters function span params).1.faults = [] →
      (env.parameters function span params).2.sight =
        (fun n => if n ∈ params then some .variable else scope n) :: outer)
  | [], env, scope, outer, h => by
    refine ⟨iff_of_true rfl ⟨List.nodup_nil, nofun⟩, fun _ => ?_⟩
    simp only [List.not_mem_nil, if_false]
    exact h
  | p :: rest, env, scope, outer, h => by
    obtain ⟨hfirst, hsight⟩ :=
      env.faults_declaration p .variable span (.duplicateParameter p function)
    have hhere : env.sight.here? p = scope p := by rw [h]; rfl
    rw [hhere] at hfirst
    rw [parameters]
    dsimp only
    rw [nil_of_faults_append]
    -- The first parameter is refused if the scope has its name already.  Otherwise the others are
    -- checked with it declared.
    by_cases hp : scope p = none
    · have hdeclared := hfirst.mpr hp
      have hnext : (env.declaration p .variable span (.duplicateParameter p function)).2.sight =
          (fun n => if n = p then some .variable else scope n) :: outer := by
        rw [hsight hdeclared, h]
        rfl
      obtain ⟨hrest, hall⟩ := faults_parameters function span rest _ _ outer hnext
      constructor
      · rw [hrest, List.nodup_cons, List.forall_mem_cons]
        constructor
        · rintro ⟨-, hnodup, hnone⟩
          -- None of the others is refused, so none has the name of the first.
          have hne : ∀ q ∈ rest, q ≠ p ∧ scope q = none := by
            intro q hq
            have := hnone q hq
            by_cases hqp : q = p
            · rw [if_pos hqp] at this
              cases this
            · rw [if_neg hqp] at this
              exact ⟨hqp, this⟩
          exact ⟨⟨fun hmem => (hne p hmem).1 rfl, hnodup⟩, hp, fun q hq => (hne q hq).2⟩
        · rintro ⟨⟨hnotMem, hnodup⟩, -, hnone⟩
          refine ⟨hdeclared, hnodup, fun q hq => ?_⟩
          rw [if_neg fun (heq : q = p) => hnotMem (heq ▸ hq)]
          exact hnone q hq
      · rintro ⟨-, hr⟩
        rw [hall hr]
        congr 1
        funext n
        by_cases hn : n ∈ rest
        · rw [if_pos hn, if_pos (List.mem_cons_of_mem p hn)]
        · by_cases hnp : n = p
          · rw [if_neg hn, if_pos hnp, if_pos (hnp ▸ List.mem_cons_self ..)]
          · rw [if_neg hn, if_neg hnp, if_neg fun hmem => (List.mem_cons.mp hmem).elim hnp hn]
    · refine ⟨iff_of_false (fun hnil => hp (hfirst.mp hnil.1)) fun hnil => hp ?_,
        fun hnil => absurd (hfirst.mp hnil.1) hp⟩
      exact hnil.2 p (List.mem_cons_self ..)

mutual

/-- An expression has no faults if and only if it keeps to the rules of scoping. -/
theorem faults_expr : ∀ e : Expr, (env.expr e).faults = [] ↔ e.WellScoped env.sight
  | .literal _ _ => by
    rw [expr, Expr.WellScoped]
    exact iff_of_true rfl trivial
  | .name span id x => by
    rw [expr, Expr.WellScoped, kind?_sight, reference]
    cases env.visible? x with
    | none => exact iff_of_false nofun fun h => h rfl
    | some d => exact iff_of_true rfl nofun
  | .binary _ _ left right => by
    rw [expr, Expr.WellScoped, nil_of_faults_append, faults_expr left, faults_expr right]
  | .not _ operand => by
    rw [expr, Expr.WellScoped, faults_expr operand]
  | .call span id f args => by
    rw [expr, Expr.WellScoped, nil_of_faults_append, faults_exprs args, kind?_sight, call]
    refine and_congr_right fun _ => ?_
    cases env.visible? f with
    | none => exact iff_of_false nofun nofun
    | some d =>
      simp only [Option.map_some, Option.some.injEq, exists_eq_left']
      cases d.kind with
      | «variable» => exact iff_of_false nofun nofun
      | builtin => exact iff_of_true rfl trivial
      | function params =>
        dsimp only [SymbolKind.Takes]
        split
        · next hlen => exact iff_of_true rfl hlen
        · next hlen => exact iff_of_false nofun hlen

/-- Some expressions have no faults if and only if all of them keep to the rules of scoping. -/
theorem faults_exprs : ∀ es : List Expr,
    (env.exprs es).faults = [] ↔ Expr.AllWellScoped env.sight es
  | [] => by
    rw [exprs, Expr.AllWellScoped]
    exact iff_of_true rfl trivial
  | e :: rest => by
    rw [exprs, Expr.AllWellScoped, nil_of_faults_append, faults_expr e, faults_exprs rest]

end

/-- The same for a value that may be missing. -/
theorem faults_expr? (value : Option Expr) :
    (env.expr? value).faults = [] ↔ ∀ e ∈ value, e.WellScoped env.sight := by
  cases value with
  | none => exact iff_of_true rfl nofun
  | some e =>
    rw [expr?, faults_expr e]
    exact ⟨fun h _ he => Option.mem_some.mp he ▸ h, fun h => h e rfl⟩

/-- What can be seen behind a statement without faults. -/
theorem sight_stmt {around : Surroundings} {s : Stmt} (h : (env.stmt around s).1.faults = []) :
    (env.stmt around s).2.sight = env.sight.after s := by
  cases s with
  | letStmt span name value =>
    rw [stmt] at h ⊢
    exact (env.faults_declaration name .variable span _).2 (nil_of_faults_append.mp h).2
  | fnStmt span name params body =>
    rw [stmt] at h ⊢
    simp only [nil_of_faults_append] at h
    exact (env.faults_declaration name (.function params) span _).2 h.1.1.2
  | ifStmt span cond body => rw [stmt]; rfl
  | ifElseStmt span cond body other => rw [stmt]; rfl
  | whileStmt span cond body => rw [stmt]; rfl
  | returnStmt span value => rw [stmt]; rfl
  | breakStmt span => rw [stmt]; rfl
  | continueStmt span => rw [stmt]; rfl
  | exprStmt span value => rw [stmt]; rfl

mutual

/-- A statement has no faults exactly if it keeps to the rules. -/
theorem faults_stmt (around : Surroundings) : ∀ (s : Stmt) (env : Environment),
    (env.stmt around s).1.faults = [] ↔ s.WellScoped env.sight around
  | .letStmt span name value, env => by
    rw [stmt, Stmt.WellScoped, nil_of_faults_append, faults_expr? value,
      (env.faults_declaration name .variable span _).1]
  | .fnStmt span name params body, env => by
    obtain ⟨hdeclared, hsight⟩ :=
      env.faults_declaration name (.function params) span (.duplicateFunction name)
    rw [stmt, Stmt.WellScoped]
    dsimp only
    simp only [nil_of_faults_append, and_assoc]
    refine and_congr ?_ ?_
    · rw [faults_faultIf, bne_eq_false_iff_eq, sight, List.length_map]
    · rw [← hdeclared]
      refine and_congr_right fun hd => ?_
      -- The parameters are the first names of the scope of the body.
      have hinner : (env.declaration name (.function params) span
          (.duplicateFunction name)).2.inner.sight =
            (fun _ => none) :: env.sight.add name (.function params) := by
        rw [sight_inner, hsight hd]
        rfl
      obtain ⟨hparams, hall⟩ := faults_parameters name span params _ _ _ hinner
      rw [and_iff_left fun _ _ => rfl] at hparams
      rw [← hparams]
      refine and_congr_right fun hp => ?_
      rw [faults_block _ body, hall hp]
      rfl
  | .returnStmt span value, env => by
    rw [stmt, Stmt.WellScoped, nil_of_faults_append, faults_expr? value, faults_faultIf,
      Bool.not_eq_false']
  | .breakStmt span, env => by
    rw [stmt, Stmt.WellScoped, faults_faultIf, beq_eq_false_iff_ne, Nat.pos_iff_ne_zero]
  | .continueStmt span, env => by
    rw [stmt, Stmt.WellScoped, faults_faultIf, beq_eq_false_iff_ne, Nat.pos_iff_ne_zero]
  | .ifStmt _ cond body, env => by
    rw [stmt, Stmt.WellScoped, nil_of_faults_append, faults_expr cond, faults_block around body,
      sight_inner]
  | .ifElseStmt _ cond body other, env => by
    rw [stmt, Stmt.WellScoped, nil_of_faults_append, nil_of_faults_append, faults_expr cond,
      faults_block around body, faults_block around other, sight_inner, sight_inner, sight_behind,
      and_assoc]
  | .whileStmt _ cond body, env => by
    rw [stmt, Stmt.WellScoped, nil_of_faults_append, faults_expr cond, faults_block _ body,
      sight_inner]
  | .exprStmt _ value, env => by
    rw [stmt, Stmt.WellScoped, faults_expr value]

/-- A block has no faults if and only if it keeps to the rules of scoping. -/
theorem faults_block (around : Surroundings) : ∀ (ss : List Stmt) (env : Environment),
    (env.block around ss).1.faults = [] ↔ Stmt.AllWellScoped env.sight around ss
  | [], env => by
    rw [block, Stmt.AllWellScoped]
    exact iff_of_true rfl trivial
  | s :: rest, env => by
    rw [block, Stmt.AllWellScoped, nil_of_faults_append, ← faults_stmt around s env]
    refine and_congr_right fun hs => ?_
    rw [faults_block around rest, sight_stmt hs]

end

/-- The environment in which the body of a function is checked. -/
def entered (env : Environment) (span : Span) (name : String) (params : List String) :
    Environment :=
  ((env.declaration name (.function params) span (.duplicateFunction name)).2.inner.parameters name
    span params).2

/-- The body of a function sees the function and its parameters. -/
theorem sight_entered {around : Surroundings} {span : Span} {name : String} {params : List String}
    {body : List Stmt} (h : (env.stmt around (.fnStmt span name params body)).1.faults = []) :
    (env.entered span name params).sight =
      (env.sight.add name (.function params)).enter params .variable := by
  rw [stmt] at h
  simp only [nil_of_faults_append] at h
  obtain ⟨⟨⟨-, hdeclared⟩, hparams⟩, -⟩ := h
  have hinner : (env.declaration name (.function params) span
      (.duplicateFunction name)).2.inner.sight =
        (fun _ => none) :: env.sight.add name (.function params) := by
    rw [sight_inner, (env.faults_declaration name (.function params) span _).2 hdeclared]
    rfl
  exact (faults_parameters name span params _ _ _ hinner).2 hparams

/-- Built-in functions that are declared one after the other are all in sight. -/
theorem sight_foldl_declare (names : List String) {env : Environment}
    {scope : String → Option SymbolKind} {outer : Sight} (h : env.sight = scope :: outer) :
    (names.foldl (fun env name => env.declare name .builtin .zero) env).sight =
      (fun n => if n ∈ names then some .builtin else scope n) :: outer := by
  induction names generalizing env scope with
  | nil =>
    simp only [List.not_mem_nil, if_false]
    exact h
  | cons name names ih =>
    have hnext : (env.declare name .builtin .zero).sight =
        (fun n => if n = name then some .builtin else scope n) :: outer := by
      rw [sight_declare, h]
      rfl
    rw [List.foldl_cons, ih hnext]
    congr 1
    funext n
    by_cases hn : n ∈ names
    · rw [if_pos hn, if_pos (List.mem_cons_of_mem name hn)]
    · by_cases hname : n = name
      · rw [if_neg hn, if_pos hname, if_pos (hname ▸ List.mem_cons_self ..)]
      · rw [if_neg hn, if_neg hname, if_neg fun hmem => (List.mem_cons.mp hmem).elim hname hn]

/-- A module starts with the built-in functions in sight. -/
theorem sight_initial : initial.sight = Sight.enter [] Builtin.names .builtin :=
  @sight_foldl_declare Builtin.names ⟨[.empty], 0⟩ (fun _ => none) [] rfl

end Environment

/-- The checker finds no fault in a module exactly if it is well scoped. -/
theorem Module.faults_check (m : Module) : m.check.faults = [] ↔ m.WellScoped := by
  rw [check, Environment.faults_block, Environment.sight_initial, WellScoped]

/-! ## Every use of a name is found -/

mutual

/-- The numbers of the uses of names in an expression, in the order in which they are checked. -/
def Expr.nodes : Expr → List Nat
  | .literal _ _ => []
  | .name _ id _ => [id]
  | .binary _ _ left right => left.nodes ++ right.nodes
  | .not _ operand => operand.nodes
  | .call _ id _ args => Expr.nodesIn args ++ [id]

/-- The same of some expressions. -/
def Expr.nodesIn : List Expr → List Nat
  | [] => []
  | e :: rest => e.nodes ++ Expr.nodesIn rest

end

/-- The same of an expression that may be missing. -/
def Expr.nodes? : Option Expr → List Nat
  | none => []
  | some e => e.nodes

mutual

/-- The numbers of the uses of names in a statement. -/
def Stmt.nodes : Stmt → List Nat
  | .letStmt _ _ value => Expr.nodes? value
  | .fnStmt _ _ _ body => Stmt.nodesIn body
  | .returnStmt _ value => Expr.nodes? value
  | .breakStmt _ | .continueStmt _ => []
  | .ifStmt _ cond body => cond.nodes ++ Stmt.nodesIn body
  | .ifElseStmt _ cond body other => cond.nodes ++ Stmt.nodesIn body ++ Stmt.nodesIn other
  | .whileStmt _ cond body => cond.nodes ++ Stmt.nodesIn body
  | .exprStmt _ value => value.nodes

/-- The numbers of the uses of names in some statements. -/
def Stmt.nodesIn : List Stmt → List Nat
  | [] => []
  | s :: rest => s.nodes ++ Stmt.nodesIn rest

end

/-- The numbers of the uses of names in a module. -/
def Module.nodes (m : Module) : List Nat := Stmt.nodesIn m.body

namespace Environment

/-- A call without a fault is a use of the function. -/
theorem call_of_faults {env : Environment} {node : Nat} {name : String} {args : Nat} {span : Span}
    (h : (env.call node name args span).faults = []) :
    ∃ d, env.visible? name = some d ∧ d.kind ≠ .variable ∧
      env.call node name args span = .use node d := by
  unfold call at h ⊢
  cases hvisible : env.visible? name with
  | none =>
    rw [hvisible] at h
    cases h
  | some d =>
    rw [hvisible] at h
    dsimp only at h ⊢
    cases hkind : d.kind with
    | «variable» =>
      rw [hkind] at h
      cases h
    | builtin => exact ⟨d, rfl, hkind ▸ nofun, rfl⟩
    | function params =>
      rw [hkind] at h
      dsimp only at h
      by_cases hlen : params.length = args
      · exact ⟨d, rfl, hkind ▸ nofun, if_pos hlen⟩
      · rw [if_neg hlen] at h
        cases h

mutual

/-- In an expression without faults every use of a name is bound, in the order in which they are
checked. -/
theorem uses_expr {env : Environment} : ∀ e : Expr, (env.expr e).faults = [] →
    (env.expr e).uses.map Prod.fst = e.nodes
  | .literal _ _, _ => by
    rw [expr, Expr.nodes]
    rfl
  | .name span id x, h => by
    rw [expr, reference] at h ⊢
    rw [Expr.nodes]
    cases hvisible : env.visible? x with
    | none =>
      rw [hvisible] at h
      cases h
    | some d => rfl
  | .binary _ _ left right, h => by
    rw [expr, nil_of_faults_append] at h
    rw [expr, Expr.nodes, Findings.uses_append, List.map_append, uses_expr left h.1,
      uses_expr right h.2]
  | .not _ operand, h => by
    rw [expr] at h ⊢
    rw [Expr.nodes, uses_expr operand h]
  | .call span id f args, h => by
    rw [expr, nil_of_faults_append] at h
    rw [expr, Expr.nodes, Findings.uses_append, List.map_append, uses_exprs args h.1]
    obtain ⟨d, -, -, hcall⟩ := call_of_faults h.2
    rw [hcall]
    rfl

/-- In some expressions without faults every use of a name is bound. -/
theorem uses_exprs {env : Environment} : ∀ es : List Expr, (env.exprs es).faults = [] →
    (env.exprs es).uses.map Prod.fst = Expr.nodesIn es
  | [], _ => by
    rw [exprs, Expr.nodesIn]
    rfl
  | e :: rest, h => by
    rw [exprs, nil_of_faults_append] at h
    rw [exprs, Expr.nodesIn, Findings.uses_append, List.map_append, uses_expr e h.1,
      uses_exprs rest h.2]

end

/-- The same for a value that may be missing. -/
theorem uses_expr? {env : Environment} (value : Option Expr) (h : (env.expr? value).faults = []) :
    (env.expr? value).uses.map Prod.fst = Expr.nodes? value := by
  cases value with
  | none => rfl
  | some e => exact uses_expr e h

/-- A declaration uses no name. -/
theorem uses_declaration (env : Environment) (name : String) (kind : SymbolKind) (span : Span)
    (fault : ScopeFault) : (env.declaration name kind span fault).1.uses = [] := by
  unfold declaration
  split <;> rfl

/-- Parameters use no names. -/
theorem uses_parameters (function : String) (span : Span) : ∀ (params : List String)
    (env : Environment), (env.parameters function span params).1.uses = []
  | [], _ => rfl
  | p :: rest, env => by
    rw [parameters, Findings.uses_append, uses_declaration, uses_parameters function span rest]
    rfl

theorem uses_faultIf (condition : Bool) (fault : ScopeFault) (span : Span) :
    (Findings.faultIf condition fault span).uses = [] := by
  cases condition <;> rfl

mutual

/-- In a statement without faults every use of a name is bound. -/
theorem uses_stmt (around : Surroundings) : ∀ (s : Stmt) {env : Environment},
    (env.stmt around s).1.faults = [] → (env.stmt around s).1.uses.map Prod.fst = s.nodes
  | .letStmt span name value, env, h => by
    rw [stmt, nil_of_faults_append] at h
    rw [stmt, Stmt.nodes, Findings.uses_append, uses_declaration, List.append_nil,
      uses_expr? value h.1]
  | .fnStmt span name params body, env, h => by
    rw [stmt] at h
    simp only [nil_of_faults_append] at h
    rw [stmt, Stmt.nodes]
    simp only [Findings.uses_append, uses_faultIf, uses_declaration, uses_parameters,
      List.nil_append]
    exact uses_block ⟨0, true⟩ body h.2
  | .returnStmt span value, env, h => by
    rw [stmt, nil_of_faults_append] at h
    rw [stmt, Stmt.nodes, Findings.uses_append, uses_faultIf, List.nil_append,
      uses_expr? value h.2]
  | .breakStmt span, env, _ => by
    rw [stmt, Stmt.nodes, uses_faultIf]
    rfl
  | .continueStmt span, env, _ => by
    rw [stmt, Stmt.nodes, uses_faultIf]
    rfl
  | .ifStmt _ cond body, env, h => by
    rw [stmt, nil_of_faults_append] at h
    rw [stmt, Stmt.nodes, Findings.uses_append, List.map_append, uses_expr cond h.1,
      uses_block around body h.2]
  | .ifElseStmt _ cond body other, env, h => by
    rw [stmt, nil_of_faults_append, nil_of_faults_append] at h
    rw [stmt, Stmt.nodes, Findings.uses_append, Findings.uses_append, List.map_append,
      List.map_append, uses_expr cond h.1.1, uses_block around body h.1.2,
      uses_block around other h.2]
  | .whileStmt _ cond body, env, h => by
    rw [stmt, nil_of_faults_append] at h
    rw [stmt, Stmt.nodes, Findings.uses_append, List.map_append, uses_expr cond h.1,
      uses_block _ body h.2]
  | .exprStmt _ value, env, h => by
    rw [stmt] at h ⊢
    rw [Stmt.nodes, uses_expr value h]

/-- In a block without faults every use of a name is bound. -/
theorem uses_block (around : Surroundings) : ∀ (ss : List Stmt) {env : Environment},
    (env.block around ss).1.faults = [] →
      (env.block around ss).1.uses.map Prod.fst = Stmt.nodesIn ss
  | [], env, _ => by
    rw [block, Stmt.nodesIn]
    rfl
  | s :: rest, env, h => by
    rw [block, nil_of_faults_append] at h
    rw [block, Stmt.nodesIn, Findings.uses_append, List.map_append, uses_stmt around s h.1,
      uses_block around rest h.2]

end

end Environment

/-! ## Resolved modules -/

namespace Walk

/-- A number that no use has is not bound anew. -/
theorem find?_bindUses_of_not_mem {node : Nat} (uses : List (Nat × Declaration))
    (h : node ∉ uses.map Prod.fst) (bindings : SortedMap Nat Nat) :
    (bindUses bindings uses).find? node = bindings.find? node := by
  induction uses generalizing bindings with
  | nil => rfl
  | cons u uses ih =>
    rw [List.map_cons, List.mem_cons, not_or] at h
    show (bindUses (bindings.insert u.1 u.2.number) uses).find? node = _
    rw [ih h.2, SortedMap.find?_insert, if_neg h.1]

/-- Uses with different numbers do not overwrite each other. -/
theorem find?_bindUses {uses : List (Nat × Declaration)} (h : (uses.map Prod.fst).Nodup)
    {u : Nat × Declaration} (hu : u ∈ uses) (bindings : SortedMap Nat Nat) :
    (bindUses bindings uses).find? u.1 = some u.2.number := by
  induction uses generalizing bindings with
  | nil => cases hu
  | cons v uses ih =>
    rw [List.map_cons, List.nodup_cons] at h
    show (bindUses (bindings.insert v.1 v.2.number) uses).find? u.1 = _
    rcases List.mem_cons.mp hu with rfl | hu
    · rw [find?_bindUses_of_not_mem uses h.1, SortedMap.find?_insert, if_pos rfl]
    · exact ih h.2 hu _

end Walk

/-- The checker finds no fault in a module that is accepted. -/
theorem Module.faults_of_resolve {m : Module} {found : Resolution} (h : m.resolve = .ok found) :
    m.check.faults = [] := by
  have hfollows := Walk.follows_block ⟨0, false⟩ m.body (w := Walk.initial) .initial
  have hfaults : (Walk.initial.block ⟨0, false⟩ m.body).faults = m.check.faults := hfollows.faults
  rw [resolve] at h
  split at h
  · next hempty => rwa [hfaults, List.isEmpty_iff] at hempty
  · cases h

/-- In a module that is accepted, every use of a name is bound to the symbol of its declaration. -/
theorem Module.bound_of_resolve {m : Module} {found : Resolution} (h : m.resolve = .ok found)
    (hnodes : m.nodes.Nodup) : ∀ u ∈ m.check.uses,
      found.bindings.find? u.1 = some u.2.number ∧ found.table.Declares u.2 := by
  have hfollows := Walk.follows_block ⟨0, false⟩ m.body (w := Walk.initial) .initial
  have huses : m.check.uses.map Prod.fst = m.nodes :=
    Environment.uses_block ⟨0, false⟩ m.body (Module.faults_of_resolve h)
  have hfound : (Walk.initial.block ⟨0, false⟩ m.body).found = found := by
    rw [resolve] at h
    split at h
    · cases h
      rfl
    · cases h
  intro u hu
  rw [← hfound]
  refine ⟨?_, hfollows.uses u hu⟩
  rw [hfollows.bindings]
  exact Walk.find?_bindUses (by rwa [← huses] at hnodes) hu _

/-- The names of a module are resolved as the checker finds them.  If the checker finds faults, all
of them are listed in their order.  If it finds none, every use of a name is bound to the symbol of
the declaration that the checker finds for it.  This is so exactly if the module is well scoped. -/
theorem Module.resolve_checked (m : Module) :
    (m.check.faults ≠ [] → m.resolve = .error m.check.faults) ∧
    (m.check.faults = [] → ∃ found, m.resolve = .ok found ∧
      m.check.uses.map Prod.fst = m.nodes ∧
      (m.nodes.Nodup → ∀ u ∈ m.check.uses, found.bindings.find? u.1 = some u.2.number) ∧
      ∀ u ∈ m.check.uses, found.table.Declares u.2) ∧
    ((∃ found, m.resolve = .ok found) ↔ m.WellScoped) := by
  -- The walk from the initial table finds just what the check finds.
  have hfollows := Walk.follows_block ⟨0, false⟩ m.body (w := Walk.initial) .initial
  have hfaults : (Walk.initial.block ⟨0, false⟩ m.body).faults = m.check.faults := hfollows.faults
  have herror : m.check.faults ≠ [] → m.resolve = .error m.check.faults := by
    intro hne
    rw [resolve]
    rw [hfaults, if_neg (by simpa using hne)]
  have hok : m.check.faults = [] →
      m.resolve = .ok (Walk.initial.block ⟨0, false⟩ m.body).found := by
    intro hnil
    rw [resolve]
    rw [hfaults, hnil, List.isEmpty_nil, if_pos rfl]
  have hnodes : m.check.faults = [] → m.check.uses.map Prod.fst = m.nodes :=
    Environment.uses_block ⟨0, false⟩ m.body
  refine ⟨herror, fun hnil => ⟨_, hok hnil, hnodes hnil, ?_, hfollows.uses⟩, ?_⟩
  · intro hnodup u hu
    rw [hfollows.bindings]
    exact Walk.find?_bindUses (by rwa [← hnodes hnil] at hnodup) hu _
  · rw [← m.faults_check]
    constructor
    · rintro ⟨found, hfound⟩
      refine Decidable.byContradiction fun hne => ?_
      rw [herror hne] at hfound
      cases hfound
    · exact fun hnil => ⟨_, hok hnil⟩

/-- A module in which one name stands for a variable, for a parameter and for a variable of a
block. -/
def Module.shadowing : Module where
  body := [
    .letStmt .zero "x" (some (.literal .zero (.bool true))),
    .fnStmt .zero "f" ["x"] [
      .ifStmt .zero (.name .zero 0 "x") [
        .letStmt .zero "x" (some (.name .zero 1 "x")),
        .returnStmt .zero (some (.name .zero 2 "x"))],
      .returnStmt .zero (some (.call .zero 4 "f" [.name .zero 3 "x"]))],
    .exprStmt .zero (.call .zero 6 "print" [.name .zero 5 "x"])]
  nodeCount := 7

/-- A module that breaks many rules at once. -/
def Module.muddled : Module where
  body := [
    .letStmt .zero "print" (some (.name .zero 0 "x")),
    .breakStmt .zero,
    .fnStmt .zero "f" ["a", "a"] [.fnStmt .zero "g" [] [.continueStmt .zero]],
    .exprStmt .zero (.call .zero 1 "f" [])]
  nodeCount := 2

/-- The faults of `Module.muddled`, in their order. -/
def Module.muddledFaults : List LocatedScopeFault := [
  ⟨.undeclaredVariable "x", .zero⟩, ⟨.duplicateVariable "print", .zero⟩, ⟨.breakOutsideLoop, .zero⟩,
  ⟨.duplicateParameter "a" "f", .zero⟩, ⟨.nestedFunction "g", .zero⟩, ⟨.continueOutsideLoop, .zero⟩,
  ⟨.arityMismatch "f" 2 0, .zero⟩]

/-- The names of `Module.shadowing` are resolved, and the faults of `Module.muddled` are listed. -/
theorem Module.shadowing_resolved :
    shadowing.check.faults = [] ∧ shadowing.nodes.Nodup ∧
    (∃ found, shadowing.resolve = .ok found ∧
      ∀ e ∈ [(0, 4), (1, 4), (2, 5), (3, 4), (4, 3), (5, 2), (6, 0)],
        found.bindings.find? e.1 = some e.2) ∧
    muddled.resolve = .error muddledFaults := by
  have hnil : shadowing.check.faults = [] := by decide +kernel
  have hnodup : shadowing.nodes.Nodup := by decide +kernel
  have huses : shadowing.check.uses.map (fun u => (u.1, u.2.number)) =
      [(0, 4), (1, 4), (2, 5), (3, 4), (4, 3), (5, 2), (6, 0)] := by decide +kernel
  have hfaults : muddled.check.faults = muddledFaults := by decide +kernel
  obtain ⟨found, hfound, -, hbindings, -⟩ := (resolve_checked shadowing).2.1 hnil
  refine ⟨hnil, hnodup, ⟨found, hfound, ?_⟩, ?_⟩
  · rw [← huses]
    intro e he
    obtain ⟨u, hu, rfl⟩ := List.mem_map.mp he
    exact hbindings hnodup u hu
  · rw [← hfaults]
    exact (resolve_checked muddled).1 (by rw [hfaults]; nofun)

end Scriptlet
