import Scriptlet.Proofs.Scoping
import Scriptlet.Proofs.Supplies
import Scriptlet.Proofs.Unshadowed

/-!
# What is known where a statement is checked

The checker numbers declarations as the text does, and every declaration that it can see from a
place is one of those outside functions or a variable of the function around the place.  These facts
are stated once for the place before a statement (`Module.Checks`), and carried from there into the
blocks of the statement, into the body of a function and to the next statement.
-/

namespace Scriptlet

/-! ## The numbers of declarations -/

namespace Environment

variable {env : Environment}

/-- A declaration closes no scope and takes one number. -/
theorem scopes_declare_ne_nil (h : env.scopes ≠ []) (name : String) (kind : SymbolKind)
    (span : Span) : (env.declare name kind span).scopes ≠ [] ∧
      (env.declare name kind span).made = env.made + 1 := by
  unfold declare
  split
  · next hnil => exact absurd hnil h
  · exact ⟨List.cons_ne_nil _ _, rfl⟩

/-- A declaration that is no fault is made. -/
theorem declaration_eq {name : String} {kind : SymbolKind} {span : Span} {fault : ScopeFault}
    (h : (env.declaration name kind span fault).1.faults = []) :
    (env.declaration name kind span fault).2 = env.declare name kind span := by
  unfold declaration at h ⊢
  split at h
  · cases h
  · rfl

/-- Parameters without faults take as many numbers as there are. -/
theorem made_parameters (function : String) (span : Span) : ∀ (params : List String)
    {env : Environment}, env.scopes ≠ [] →
    (env.parameters function span params).1.faults = [] →
    (env.parameters function span params).2.scopes ≠ [] ∧
      (env.parameters function span params).2.made = env.made + params.length
  | [], env, hne, _ => ⟨hne, rfl⟩
  | p :: rest, env, hne, h => by
    rw [parameters] at h ⊢
    obtain ⟨hfirst, hrest⟩ := nil_of_faults_append.mp h
    dsimp only
    rw [declaration_eq hfirst] at hrest ⊢
    obtain ⟨hne', hmade⟩ := scopes_declare_ne_nil hne p .variable span
    obtain ⟨hscopes, hrest⟩ := made_parameters function span rest hne' hrest
    refine ⟨hscopes, ?_⟩
    rw [hrest, hmade, List.length_cons]
    omega

mutual

/-- Without faults, every declaration of a statement is made. -/
theorem made_stmt (around : Surroundings) : ∀ (s : Stmt) {env : Environment}, env.scopes ≠ [] →
    (env.stmt around s).1.faults = [] →
    (env.stmt around s).2.scopes ≠ [] ∧ (env.stmt around s).2.made = env.made + s.declared
  | .letStmt span name value, env, hne, h => by
    rw [stmt] at h ⊢
    dsimp only
    rw [declaration_eq (nil_of_faults_append.mp h).2, Stmt.declared]
    exact scopes_declare_ne_nil hne name .variable span
  | .fnStmt span name params body, env, hne, h => by
    rw [stmt] at h ⊢
    simp only [nil_of_faults_append] at h
    obtain ⟨⟨⟨-, hdeclared⟩, hparams⟩, hbody⟩ := h
    dsimp only
    rw [declaration_eq hdeclared] at hparams hbody ⊢
    -- The function takes one number, and its parameters and its body take the next ones.
    obtain ⟨hne₁, hmade₁⟩ := scopes_declare_ne_nil hne name (.function params) span
    obtain ⟨hne₂, hmade₂⟩ := made_parameters name span params (List.cons_ne_nil _ _) hparams
    refine ⟨hne₁, (made_block ⟨0, true⟩ body hne₂ hbody).2.trans ?_⟩
    rw [hmade₂, inner, hmade₁, Stmt.declared]
    omega
  | .returnStmt span value, env, hne, h => by
    rw [stmt, Stmt.declared]
    exact ⟨hne, rfl⟩
  | .breakStmt span, env, hne, h => by
    rw [stmt, Stmt.declared]
    exact ⟨hne, rfl⟩
  | .continueStmt span, env, hne, h => by
    rw [stmt, Stmt.declared]
    exact ⟨hne, rfl⟩
  | .ifStmt _ cond body, env, hne, h => by
    rw [stmt] at h ⊢
    rw [Stmt.declared]
    have hbody := (nil_of_faults_append.mp h).2
    exact ⟨hne, (made_block around body (List.cons_ne_nil _ _) hbody).2⟩
  | .ifElseStmt _ cond body other, env, hne, h => by
    rw [stmt] at h ⊢
    rw [Stmt.declared]
    simp only [nil_of_faults_append] at h
    obtain ⟨⟨-, hbody⟩, hother⟩ := h
    obtain ⟨-, hmade₁⟩ := made_block around body (List.cons_ne_nil _ _) hbody
    obtain ⟨-, hmade₂⟩ := made_block around other (List.cons_ne_nil _ _) hother
    have hmade₁ : (env.inner.block around body).2.made = env.made + Stmt.declaredIn body := hmade₁
    -- The second block goes on with the numbers behind the first.
    refine ⟨hne, hmade₂.trans ?_⟩
    show (env.inner.block around body).2.made + Stmt.declaredIn other = _
    rw [hmade₁, Nat.add_assoc]
  | .whileStmt _ cond body, env, hne, h => by
    rw [stmt] at h ⊢
    rw [Stmt.declared]
    have hbody := (nil_of_faults_append.mp h).2
    exact ⟨hne, (made_block _ body (List.cons_ne_nil _ _) hbody).2⟩
  | .exprStmt _ value, env, hne, h => by
    rw [stmt, Stmt.declared]
    exact ⟨hne, rfl⟩

/-- A block without faults takes as many numbers as it has declarations. -/
theorem made_block (around : Surroundings) : ∀ (ss : List Stmt) {env : Environment},
    env.scopes ≠ [] → (env.block around ss).1.faults = [] →
    (env.block around ss).2.scopes ≠ [] ∧
      (env.block around ss).2.made = env.made + Stmt.declaredIn ss
  | [], env, hne, _ => by
    rw [block, Stmt.declaredIn]
    exact ⟨hne, rfl⟩
  | s :: rest, env, hne, h => by
    rw [block] at h ⊢
    obtain ⟨hs, hrest⟩ := nil_of_faults_append.mp h
    obtain ⟨hne₁, hmade₁⟩ := made_stmt around s hne hs
    obtain ⟨hne₂, hmade₂⟩ := made_block around rest hne₁ hrest
    refine ⟨hne₂, hmade₂.trans ?_⟩
    rw [hmade₁, Stmt.declaredIn]
    omega

end

end Environment

/-! ## What can be seen -/

/-- The declarations that can be seen in an environment are known, where `own` are the declarations
of the function around the place, if there is one. -/
structure Module.Sees (m : Module) (own : Option (List Declared)) (env : Environment) : Prop where
  nonempty : env.scopes ≠ []
  /-- There is a function around only in inner scopes. -/
  deep : own ≠ none → env.scopes.length ≠ 1
  owns : ∀ es ∈ own, m.Owns es
  knows : ∀ scope ∈ env.scopes, ∀ x d, scope.find? x = some d → d.name = x ∧ m.Knows own d

namespace Module.Sees

variable {m : Module} {own : Option (List Declared)} {env : Environment}

/-- A declaration that can be seen is known, and has the name that was looked for. -/
theorem visible (h : m.Sees own env) {x : String} {d : Declaration}
    (hd : env.visible? x = some d) : d.name = x ∧ m.Knows own d := by
  obtain ⟨scope, hscope, hfind⟩ := List.exists_of_findSome?_eq_some hd
  exact h.knows scope hscope x d hfind

/-- Declaring what is known. -/
theorem declare (h : m.Sees own env) {name : String} {kind : SymbolKind} {span : Span}
    (hd : m.Knows own ⟨env.made, name, kind, span⟩) : m.Sees own (env.declare name kind span) := by
  obtain ⟨scope, outer, hscopes⟩ := List.exists_cons_of_ne_nil h.nonempty
  have heq : env.declare name kind span =
      ⟨scope.insert name ⟨env.made, name, kind, span⟩ :: outer, env.made + 1⟩ := by
    rw [Environment.declare, hscopes]
  have hdeep := h.deep
  have hknows := h.knows
  rw [hscopes] at hdeep hknows
  obtain ⟨hscope, houter⟩ := List.forall_mem_cons.mp hknows
  rw [heq]
  refine ⟨List.cons_ne_nil _ _, hdeep, h.owns, List.forall_mem_cons.mpr ⟨?_, houter⟩⟩
  intro x d hfind
  rw [SortedMap.find?_insert] at hfind
  by_cases hx : x = name
  · rw [if_pos hx] at hfind
    cases hfind
    exact ⟨hx.symm, hd⟩
  · rw [if_neg hx] at hfind
    exact hscope x d hfind

theorem length_inner (h : m.Sees own env) : env.inner.scopes.length ≠ 1 :=
  fun hlength => h.nonempty (List.length_eq_zero_iff.mp (Nat.succ.inj hlength))

theorem inner (h : m.Sees own env) : m.Sees own env.inner :=
  ⟨List.cons_ne_nil _ _, fun _ => h.length_inner, h.owns,
    List.forall_mem_cons.mpr ⟨nofun, h.knows⟩⟩

theorem behind (h : m.Sees own env) (inside : Environment) : m.Sees own (env.behind inside) :=
  ⟨h.nonempty, h.deep, h.owns, h.knows⟩

/-- Entering a function from outside all functions. -/
theorem enter (h : m.Sees none env) {es : List Declared} (hes : m.Owns es) :
    m.Sees (some es) env.inner := by
  refine ⟨h.inner.nonempty, fun _ => h.length_inner, ?_, fun scope hscope x d hfind => ?_⟩
  · intro es' hes'
    cases hes'
    exact hes
  · obtain ⟨hname, hd | ⟨es', hes', -⟩⟩ := h.inner.knows scope hscope x d hfind
    · exact ⟨hname, .inl hd⟩
    · cases hes'

/-- The parameters of a function are among its declarations. -/
theorem parameters {es : List Declared} (function : String) (span : Span) :
    ∀ (params : List String) {env : Environment}, m.Sees (some es) env →
      (env.parameters function span params).1.faults = [] →
      Declared.parameters span env.made params ⊆ es →
      m.Sees (some es) (env.parameters function span params).2
  | [], env, h, _, _ => h
  | p :: rest, env, h, hfaults, hsub => by
    rw [Environment.parameters] at hfaults ⊢
    obtain ⟨hfirst, hrest⟩ := Environment.nil_of_faults_append.mp hfaults
    dsimp only
    rw [Environment.declaration_eq hfirst] at hrest ⊢
    rw [Declared.parameters] at hsub
    obtain ⟨hp, hsub⟩ := List.cons_subset.mp hsub
    refine parameters function span rest (h.declare (.inr ⟨es, rfl, hp, rfl⟩)) hrest ?_
    rwa [(Environment.scopes_declare_ne_nil h.nonempty p .variable span).2]

/-- A function is declared only where there is no function around. -/
theorem own_eq_none (h : m.Sees own env) {fault : ScopeFault} {span : Span}
    (hnested : (Findings.faultIf (env.scopes.length != 1) fault span).faults = []) :
    own = none := by
  rw [Environment.faults_faultIf, bne_eq_false_iff_eq] at hnested
  exact Decidable.byContradiction fun hown => h.deep hown hnested

/-- What is declared by a statement without faults is known behind it. -/
theorem stmt (h : m.Sees own env) {around : Surroundings} {s : Stmt}
    (hfaults : (env.stmt around s).1.faults = [])
    (hsub : s.declarations own.isSome env.made ⊆ own.getD m.declarations) :
    m.Sees own (env.stmt around s).2 := by
  cases s with
  | letStmt span name value =>
    rw [Environment.stmt] at hfaults ⊢
    rw [Stmt.declarations] at hsub
    have hmem := hsub (List.mem_singleton.mpr rfl)
    dsimp only
    rw [Environment.declaration_eq (Environment.nil_of_faults_append.mp hfaults).2]
    refine h.declare ?_
    cases own with
    | none => exact .inl hmem
    | some es => exact .inr ⟨es, rfl, hmem, rfl⟩
  | fnStmt span name params body =>
    rw [Environment.stmt] at hfaults ⊢
    simp only [Environment.nil_of_faults_append] at hfaults
    obtain ⟨⟨⟨hnested, hdeclared⟩, -⟩, -⟩ := hfaults
    dsimp only
    rw [Environment.declaration_eq hdeclared]
    obtain rfl := h.own_eq_none hnested
    rw [Stmt.declarations] at hsub
    exact (h.declare (.inl (List.cons_subset.mp hsub).1)).behind _
  | ifStmt span cond body => rw [Environment.stmt]; exact h.behind _
  | ifElseStmt span cond body other => rw [Environment.stmt]; exact h.behind _
  | whileStmt span cond body => rw [Environment.stmt]; exact h.behind _
  | returnStmt span value => rw [Environment.stmt]; exact h
  | breakStmt span => rw [Environment.stmt]; exact h
  | continueStmt span => rw [Environment.stmt]; exact h
  | exprStmt span value => rw [Environment.stmt]; exact h

end Module.Sees

/-! ## Uses of names -/

/-- A part of a module has no faults, and its uses of names are bound as the checker finds them. -/
structure Resolution.Binds (r : Resolution) (f : Findings) : Prop where
  faults : f.faults = []
  bound : ∀ u ∈ f.uses, r.bindings.find? u.1 = some u.2.number

/-- Two parts are bound if both are. -/
theorem Resolution.binds_append {r : Resolution} {f g : Findings} :
    r.Binds (f ++ g) ↔ r.Binds f ∧ r.Binds g := by
  constructor
  · rintro ⟨hfaults, hbound⟩
    obtain ⟨hf, hg⟩ := Environment.nil_of_faults_append.mp hfaults
    obtain ⟨hf', hg'⟩ := List.forall_mem_append.mp hbound
    exact ⟨⟨hf, hf'⟩, ⟨hg, hg'⟩⟩
  · rintro ⟨hf, hg⟩
    exact ⟨Environment.nil_of_faults_append.mpr ⟨hf.faults, hg.faults⟩,
      List.forall_mem_append.mpr ⟨hf.bound, hg.bound⟩⟩

section Checks

variable {m : Module} {r : Resolution} {own : Option (List Declared)} {env : Environment}
  {around : Surroundings}

/-- What is called without a fault is declared outside functions. -/
theorem Module.Sees.callee (hsees : m.Sees own env) {node : Nat} {f : String} {args : Nat}
    {span : Span} (h : r.Binds (env.call node f args span)) :
    ∃ d : Declaration, d.name = f ∧ ⟨d, false⟩ ∈ m.declarations ∧ d.kind ≠ .variable ∧
      r.bindings.find? node = some d.number := by
  obtain ⟨d, hvisible, hkind, huse⟩ := Environment.call_of_faults h.faults
  have hbound := h.bound
  rw [huse] at hbound
  obtain ⟨hname, hd | ⟨es, -, -, hvariable⟩⟩ := hsees.visible hvisible
  · exact ⟨d, hname, hd, hkind, hbound _ (List.mem_singleton.mpr rfl)⟩
  · exact absurd hvariable hkind

/-- A name that is used without a fault stands for a known declaration. -/
theorem Module.Sees.named (hsees : m.Sees own env) {node : Nat} {x : String} {span : Span}
    (h : r.Binds (env.reference node x span)) :
    ∃ d : Declaration, d.name = x ∧ m.Knows own d ∧ r.bindings.find? node = some d.number := by
  obtain ⟨hfaults, hbound⟩ := h
  unfold Environment.reference at hfaults hbound
  cases hvisible : env.visible? x with
  | none =>
    rw [hvisible] at hfaults
    cases hfaults
  | some d =>
    rw [hvisible] at hbound
    obtain ⟨hname, hd⟩ := hsees.visible hvisible
    exact ⟨d, hname, hd, hbound _ (List.mem_singleton.mpr rfl)⟩

/-! ## Checked statements -/

/-- What is known of a statement of a module that was checked without faults. -/
structure Module.Checks (m : Module) (r : Resolution) (own : Option (List Declared))
    (env : Environment) (around : Surroundings) (s : Stmt) : Prop where
  sees : m.Sees own env
  binds : r.Binds (env.stmt around s).1
  declared : s.declarations own.isSome env.made ⊆ own.getD m.declarations
  defined : s.definitions ⊆ Stmt.definitionsIn m.body
  initialised : ∃ inside a, ∀ x ∈ ⟨s, inside, a⟩ :: s.inner inside a, x.stmt.initialised = true

/-- What is known of some statements of a module that were checked without faults. -/
structure Module.ChecksAll (m : Module) (r : Resolution) (own : Option (List Declared))
    (env : Environment) (around : Surroundings) (ss : List Stmt) : Prop where
  sees : m.Sees own env
  binds : r.Binds (env.block around ss).1
  declared : Stmt.declarationsIn own.isSome env.made ss ⊆ own.getD m.declarations
  defined : Stmt.definitionsIn ss ⊆ Stmt.definitionsIn m.body
  initialised : ∃ inside a, ∀ x ∈ Stmt.placed inside ss a, x.stmt.initialised = true

/-- What is known of a function with the number of its symbol: its body was checked without faults,
with the declarations of the function. -/
def Module.Prepared (m : Module) (r : Resolution) (f : Nat × Definition) : Prop :=
  ∃ span env, env.made = f.1 + 1 + f.2.params.length ∧
    m.ChecksAll r (some (f.2.declarations span f.1)) env ⟨0, true⟩ f.2.body

/-- The first of some statements, and the others behind it. -/
theorem Module.ChecksAll.cons {s : Stmt} {rest : List Stmt}
    (h : m.ChecksAll r own env around (s :: rest)) :
    m.Checks r own env around s ∧
      ∃ env', env'.made = env.made + s.declared ∧ m.ChecksAll r own env' around rest := by
  obtain ⟨hsees, hbinds, hdeclared, hdefined, inside, a, hinit⟩ := h
  rw [Environment.block, Resolution.binds_append] at hbinds
  rw [Stmt.declarationsIn] at hdeclared
  rw [Stmt.definitionsIn] at hdefined
  rw [Stmt.placed] at hinit
  obtain ⟨hbinds₁, hbinds₂⟩ := hbinds
  obtain ⟨hdeclared₁, hdeclared₂⟩ := List.append_subset.mp hdeclared
  obtain ⟨hdefined₁, hdefined₂⟩ := List.append_subset.mp hdefined
  obtain ⟨hinit₁, hinit₂⟩ := List.forall_mem_append.mp hinit
  have hmade := (Environment.made_stmt around s hsees.nonempty hbinds₁.faults).2
  refine ⟨⟨hsees, hbinds₁, hdeclared₁, hdefined₁, inside, a, hinit₁⟩, _, hmade, ?_⟩
  rw [← hmade] at hdeclared₂
  exact ⟨hsees.stmt hbinds₁.faults hdeclared₁, hbinds₂, hdeclared₂, hdefined₂, inside, _, hinit₂⟩

namespace Module.Checks

/-- A declaration has a value, which is bound, and it is a declaration of the module or of the
function around it. -/
theorem letStmt {span : Span} {x : String} {value : Option Expr}
    (h : m.Checks r own env around (.letStmt span x value)) :
    ∃ e, value = some e ∧ r.Binds (env.expr e) ∧
      ⟨⟨env.made, x, .variable, span⟩, own.isSome⟩ ∈ own.getD m.declarations := by
  obtain ⟨-, hbinds, hdeclared, -, inside, a, hinit⟩ := h
  rw [Environment.stmt, Resolution.binds_append] at hbinds
  rw [Stmt.declarations] at hdeclared
  have hvalue := hinit _ (List.mem_cons_self ..)
  cases value with
  | none => cases hvalue
  | some e => exact ⟨e, rfl, hbinds.1, hdeclared (List.mem_singleton.mpr rfl)⟩

/-- The condition of a conditional is bound, and its body is checked in a fresh scope. -/
theorem ifStmt {span : Span} {cond : Expr} {body : List Stmt}
    (h : m.Checks r own env around (.ifStmt span cond body)) :
    r.Binds (env.expr cond) ∧ m.ChecksAll r own env.inner around body := by
  obtain ⟨hsees, hbinds, hdeclared, hdefined, inside, a, hinit⟩ := h
  rw [Environment.stmt, Resolution.binds_append] at hbinds
  rw [Stmt.declarations] at hdeclared
  rw [Stmt.definitions] at hdefined
  rw [Stmt.inner] at hinit
  exact ⟨hbinds.1, hsees.inner, hbinds.2, hdeclared, hdefined, inside, _,
    (List.forall_mem_cons.mp hinit).2⟩

/-- The condition of a conditional is bound, and both blocks are checked in scopes of their own, the
second with the numbers behind those of the first. -/
theorem ifElseStmt {span : Span} {cond : Expr} {body other : List Stmt}
    (h : m.Checks r own env around (.ifElseStmt span cond body other)) :
    r.Binds (env.expr cond) ∧ m.ChecksAll r own env.inner around body ∧
      ∃ env', env'.made = env.made + Stmt.declaredIn body ∧
        m.ChecksAll r own env' around other := by
  obtain ⟨hsees, hbinds, hdeclared, hdefined, inside, a, hinit⟩ := h
  rw [Environment.stmt, Resolution.binds_append, Resolution.binds_append] at hbinds
  rw [Stmt.declarations] at hdeclared
  rw [Stmt.definitions] at hdefined
  rw [Stmt.inner] at hinit
  obtain ⟨⟨hcond, hbody⟩, hother⟩ := hbinds
  obtain ⟨hdeclared₁, hdeclared₂⟩ := List.append_subset.mp hdeclared
  obtain ⟨hdefined₁, hdefined₂⟩ := List.append_subset.mp hdefined
  obtain ⟨hinit₁, hinit₂⟩ := List.forall_mem_append.mp (List.forall_mem_cons.mp hinit).2
  have hmade : (env.behind (env.inner.block around body).2).inner.made =
      env.made + Stmt.declaredIn body :=
    (Environment.made_block around body (List.cons_ne_nil _ _) hbody.faults).2
  refine ⟨hcond, ⟨hsees.inner, hbody, hdeclared₁, hdefined₁, inside, _, hinit₁⟩, _, hmade, ?_⟩
  rw [← hmade] at hdeclared₂
  exact ⟨(hsees.behind _).inner, hother, hdeclared₂, hdefined₂, inside, _, hinit₂⟩

/-- The condition of a loop is bound, and its body is checked in a fresh scope with one more loop
around it. -/
theorem whileStmt {span : Span} {cond : Expr} {body : List Stmt}
    (h : m.Checks r own env around (.whileStmt span cond body)) :
    r.Binds (env.expr cond) ∧
      m.ChecksAll r own env.inner { around with loops := around.loops + 1 } body := by
  obtain ⟨hsees, hbinds, hdeclared, hdefined, inside, a, hinit⟩ := h
  rw [Environment.stmt, Resolution.binds_append] at hbinds
  rw [Stmt.declarations] at hdeclared
  rw [Stmt.definitions] at hdefined
  rw [Stmt.inner] at hinit
  exact ⟨hbinds.1, hsees.inner, hbinds.2, hdeclared, hdefined, inside, _,
    (List.forall_mem_cons.mp hinit).2⟩

/-- The body of a function sees the function, its parameters and what is outside. -/
theorem fnStmt (hm : m.Unshadowed) {span : Span} {name : String} {params : List String}
    {body : List Stmt} (h : m.Checks r own env around (.fnStmt span name params body)) :
    m.Prepared r (env.made, ⟨name, params, body⟩) := by
  obtain ⟨hsees, hbinds, hdeclared, hdefined, inside, a, hinit⟩ := h
  rw [Environment.stmt] at hbinds
  simp only [Resolution.binds_append] at hbinds
  obtain ⟨⟨⟨hnested, hfunction⟩, hparams⟩, hbody⟩ := hbinds
  obtain rfl := hsees.own_eq_none hnested.faults
  rw [Environment.declaration_eq hfunction.faults] at hparams hbody
  rw [Stmt.declarations] at hdeclared
  rw [Stmt.definitions] at hdefined
  rw [Stmt.inner] at hinit
  obtain ⟨hfirst, hown⟩ := List.cons_subset.mp hdeclared
  obtain ⟨hdefinition, hdefined⟩ := List.cons_subset.mp hdefined
  have hmade₁ := (Environment.scopes_declare_ne_nil hsees.nonempty name (.function params) span).2
  have hmade₁ : (env.declare name (.function params) span).inner.made = env.made + 1 := hmade₁
  have hsees₁ := (hsees.declare (.inl hfirst)).enter (hm.owns hdefinition hown)
  have hmade₂ := (Environment.made_parameters name span params hsees₁.nonempty hparams.faults).2
  rw [hmade₁] at hmade₂
  have hsees₂ := hsees₁.parameters name span params hparams.faults
    (by rw [hmade₁]; exact List.subset_append_left ..)
  refine ⟨span, _, hmade₂, hsees₂, hbody, ?_, hdefined, true, _, (List.forall_mem_cons.mp hinit).2⟩
  rw [hmade₂]
  exact List.subset_append_right ..

end Module.Checks

mutual

/-- The functions in a checked statement are prepared. -/
theorem Stmt.prepared (hm : m.Unshadowed) : ∀ (s : Stmt) {own : Option (List Declared)}
    {env : Environment} {around : Surroundings}, m.Checks r own env around s →
      ∀ f ∈ s.functions env.made, m.Prepared r f
  | .fnStmt span name params body, own, env, around, h, f, hf => by
    have hprepared := h.fnStmt hm
    rw [Stmt.functions] at hf
    rcases List.mem_cons.mp hf with rfl | hf
    · exact hprepared
    · obtain ⟨_, env', hmade, hbody⟩ := hprepared
      -- The functions in the body are numbered behind the parameters.
      rw [← hmade] at hf
      exact Stmt.prepared_all hm body hbody f hf
  | .ifStmt span cond body, own, env, around, h, f, hf => by
    rw [Stmt.functions] at hf
    exact Stmt.prepared_all hm body h.ifStmt.2 f hf
  | .ifElseStmt span cond body other, own, env, around, h, f, hf => by
    obtain ⟨-, hbody, env', hmade, hother⟩ := h.ifElseStmt
    rw [Stmt.functions] at hf
    rcases List.mem_append.mp hf with hf | hf
    · exact Stmt.prepared_all hm body hbody f hf
    · rw [← hmade] at hf
      exact Stmt.prepared_all hm other hother f hf
  | .whileStmt span cond body, own, env, around, h, f, hf => by
    rw [Stmt.functions] at hf
    exact Stmt.prepared_all hm body h.whileStmt.2 f hf
  | .letStmt _ _ _, own, env, around, _, f, hf => by
    rw [Stmt.functions] at hf
    cases hf
  | .returnStmt _ _, own, env, around, _, f, hf => by
    rw [Stmt.functions] at hf
    cases hf
  | .breakStmt _, own, env, around, _, f, hf => by
    rw [Stmt.functions] at hf
    cases hf
  | .continueStmt _, own, env, around, _, f, hf => by
    rw [Stmt.functions] at hf
    cases hf
  | .exprStmt _ _, own, env, around, _, f, hf => by
    rw [Stmt.functions] at hf
    cases hf

/-- All functions of a block are known with their symbols. -/
theorem Stmt.prepared_all (hm : m.Unshadowed) : ∀ (ss : List Stmt) {own : Option (List Declared)}
    {env : Environment} {around : Surroundings}, m.ChecksAll r own env around ss →
      ∀ f ∈ Stmt.functionsIn env.made ss, m.Prepared r f
  | [], own, env, around, _, f, hf => by
    rw [Stmt.functionsIn] at hf
    cases hf
  | s :: rest, own, env, around, h, f, hf => by
    obtain ⟨hs, env', hmade, hrest⟩ := h.cons
    rw [Stmt.functionsIn] at hf
    rcases List.mem_append.mp hf with hf | hf
    · exact Stmt.prepared hm s hs f hf
    · rw [← hmade] at hf
      exact Stmt.prepared_all hm rest hrest f hf

end

end Checks

/-! ## Modules -/

/-- A module starts with the built-in functions in sight. -/
theorem Module.sees_initial (m : Module) : m.Sees none .initial := by
  have hbuiltin : ∀ d : Declaration, ⟨d, false⟩ ∈ Builtin.declarations → m.Knows none d :=
    fun d hd => .inl (List.mem_append_left _ hd)
  have hblank : m.Sees none ⟨[.empty], 0⟩ :=
    ⟨List.cons_ne_nil _ _, fun h => absurd rfl h, nofun,
      List.forall_mem_cons.mpr ⟨nofun, nofun⟩⟩
  have hprint := hblank.declare (hbuiltin ⟨0, "print", .builtin, .zero⟩ (by decide))
  exact hprint.declare (hbuiltin ⟨1, "input", .builtin, .zero⟩ (by decide))

/-- What is known of the body of an accepted module. -/
theorem Module.checksAll_of_resolve {m : Module} {found : Resolution} (h : m.resolve = .ok found)
    (hinit : m.Initialised) (hnodes : m.nodes.Nodup) :
    m.ChecksAll found none .initial ⟨0, false⟩ m.body where
  sees := m.sees_initial
  binds := ⟨Module.faults_of_resolve h, fun u hu => (Module.bound_of_resolve h hnodes u hu).1⟩
  declared := List.subset_append_right ..
  defined := List.Subset.refl _
  initialised := ⟨false, 0, hinit⟩

end Scriptlet
