import Scriptlet.Proofs.Layout

/-!
# Generation puts every tree in its place

Generating the code of a tree appends as many instructions as the tree is wide, and leaves all that
was there.  So what the code of a tree looks like can be read off any later program, and the code of
the whole module off the last one (`Module.generate_at`, `Module.generate_table`).
-/

namespace Scriptlet

/-! ## Literals of a tree -/

mutual

/-- The literals of an expression. -/
def Expr.literals : Expr → List Literal
  | .literal _ value => [value]
  | .name _ _ _ => []
  | .binary _ _ left right => left.literals ++ right.literals
  | .not _ operand => operand.literals
  | .call _ _ _ args => Expr.literalsIn args

/-- The literals of some expressions. -/
def Expr.literalsIn : List Expr → List Literal
  | [] => []
  | e :: rest => e.literals ++ Expr.literalsIn rest

end

mutual

/-- The literals of a statement. -/
def Stmt.literals : Stmt → List Literal
  | .letStmt _ _ none => []
  | .letStmt _ _ (some value) => value.literals
  | .fnStmt _ _ _ body => Stmt.literalsIn body
  | .returnStmt _ none => []
  | .returnStmt _ (some value) => value.literals
  | .breakStmt _ | .continueStmt _ => []
  | .ifStmt _ cond body => cond.literals ++ Stmt.literalsIn body
  | .ifElseStmt _ cond body other =>
    cond.literals ++ Stmt.literalsIn body ++ Stmt.literalsIn other
  | .whileStmt _ cond body => cond.literals ++ Stmt.literalsIn body
  | .exprStmt _ value => value.literals

/-- The literals of some statements. -/
def Stmt.literalsIn : List Stmt → List Literal
  | [] => []
  | s :: rest => s.literals ++ Stmt.literalsIn rest

end

/-! ## Programs that only grow -/

namespace Program

/-- A program holds everything that another holds, at the same places. -/
structure Extends (q p : Program) : Prop where
  code : ∀ {i : Nat} {x}, p.code[i]? = some x → q.code[i]? = some x
  constants : ∀ {i : Nat} {x}, p.constants[i]? = some x → q.constants[i]? = some x
  variableNames : ∀ {i : Nat} {x}, p.variableNames[i]? = some x → q.variableNames[i]? = some x

theorem Extends.refl (p : Program) : p.Extends p := ⟨id, id, id⟩

theorem Extends.trans {p q r : Program} (h : r.Extends q) (h' : q.Extends p) : r.Extends p :=
  ⟨fun e => h.code (h'.code e), fun e => h.constants (h'.constants e),
    fun e => h.variableNames (h'.variableNames e)⟩

/-- A program extends another by a number of instructions, and its new constants are among given
literals and texts. -/
structure Adds (q p : Program) (width : Nat) (values : List Literal) : Prop where
  grows : q.Extends p
  offset : q.offset = p.offset + width
  pool : ∀ v ∈ q.constants, v ∈ p.constants ∨ v ∈ values ∨ ∃ name, v = .str name

theorem Adds.refl (p : Program) : p.Adds p 0 [] := ⟨.refl p, rfl, fun _ hv => .inl hv⟩

/-- Code that is written behind other code adds its width and its literals. -/
theorem Adds.andThen {p q r : Program} {w w' : Nat} {vs vs' : List Literal} (h : q.Adds p w vs)
    (h' : r.Adds q w' vs') : r.Adds p (w + w') (vs ++ vs') := by
  refine ⟨h'.grows.trans h.grows, ?_, ?_⟩
  · rw [h'.offset, h.offset, Nat.add_assoc]
  · intro v hv
    rcases h'.pool v hv with hv | hv | hv
    · rcases h.pool v hv with hv | hv | hv
      · exact .inl hv
      · exact .inr (.inl (List.mem_append_left _ hv))
      · exact .inr (.inr hv)
    · exact .inr (.inl (List.mem_append_right _ hv))
    · exact .inr (.inr hv)

/-- Code that brings no new literals. -/
theorem Adds.andCode {p q r : Program} {w w' : Nat} {vs : List Literal} (h : q.Adds p w vs)
    (h' : r.Adds q w' []) : r.Adds p (w + w') vs := by
  have := h.andThen h'
  rwa [List.append_nil] at this

/-! ## The pools -/

/-- An entry of an array stays when another is appended. -/
theorem getElem?_push_of_eq_some {α : Type} {xs : Array α} {x y : α} {i : Nat}
    (h : xs[i]? = some x) : (xs.push y)[i]? = some x := by
  have hi : i < xs.size := (Array.getElem?_eq_some_iff.mp h).1
  rw [Array.getElem?_push, if_neg (by omega), h]

/-- Putting a literal into the pool adds no code. -/
theorem adds_addConstant (p : Program) (value : Literal) :
    (p.addConstant value).2.Adds p 0 [value] := by
  unfold addConstant
  split
  · exact ⟨.refl p, rfl, fun _ hv => .inl hv⟩
  · refine ⟨⟨id, getElem?_push_of_eq_some, id⟩, rfl, fun v hv => ?_⟩
    rcases Array.mem_push.mp hv with hv | rfl
    · exact .inl hv
    · exact .inr (.inl (List.mem_singleton.mpr rfl))

/-- The index of a literal leads to the literal itself or to one that agrees with it. -/
theorem constants_addConstant (p : Program) (value : Literal) :
    ∃ found, (p.addConstant value).2.constants[(p.addConstant value).1]? = some found ∧
      (found = value ∨ value.agrees found = true) := by
  unfold addConstant
  split
  · next k hk =>
    obtain ⟨hlt, hagrees, -⟩ := Array.findIdx?_eq_some_iff_getElem.mp hk
    exact ⟨p.constants[k], by simp [hlt], .inr hagrees⟩
  · exact ⟨value, by simp, .inl rfl⟩

theorem functions_addConstant (p : Program) (value : Literal) :
    (p.addConstant value).2.functions = p.functions := by
  unfold addConstant; split <;> rfl

/-- Putting a name into the pool adds no code. -/
theorem adds_addVariable (p : Program) (name : String) : (p.addVariable name).2.Adds p 0 [] := by
  unfold addVariable
  split
  · exact .refl p
  · exact ⟨⟨id, id, getElem?_push_of_eq_some⟩, rfl, fun _ hv => .inl hv⟩

/-- The index of a name leads to the name. -/
theorem variableNames_addVariable (p : Program) (name : String) :
    (p.addVariable name).2.variableNames[(p.addVariable name).1]? = some name := by
  unfold addVariable
  split
  · next k hk =>
    obtain ⟨hlt, heq, -⟩ := Array.findIdx?_eq_some_iff_getElem.mp hk
    simp only [beq_iff_eq] at heq
    simp [hlt, heq]
  · simp

theorem functions_addVariable (p : Program) (name : String) :
    (p.addVariable name).2.functions = p.functions := by
  unfold addVariable; split <;> rfl

/-! ## Growth along a tree -/

/-- An instruction is one offset wide and brings no literal. -/
theorem adds_push (p : Program) (i : Instruction) : (p.push i).Adds p 1 [] :=
  ⟨⟨getElem?_push_of_eq_some, id, id⟩, Array.size_push .., fun _ hv => .inl hv⟩

/-- Loading a literal is one instruction, and the literal is brought with it. -/
theorem adds_loadConstant (p : Program) (value : Literal) :
    (p.loadConstant value).Adds p 1 [value] :=
  (adds_addConstant p value).andThen (adds_push _ _)

theorem adds_loadVariable (p : Program) (name : String) : (p.loadVariable name).Adds p 1 [] :=
  (adds_addVariable p name).andThen (adds_push _ _)

theorem adds_storeVariable (p : Program) (name : String) : (p.storeVariable name).Adds p 1 [] :=
  (adds_addVariable p name).andThen (adds_push _ _)

/-- A call is one instruction.  The name of the function is kept as a constant, but it is no literal
of the text. -/
theorem adds_callFunction (p : Program) (name : String) (args : Nat) :
    (p.callFunction name args).Adds p 1 [] := by
  have h : (p.callFunction name args).Adds p 1 [.str name] :=
    (adds_addConstant p (.str name)).andThen (adds_push _ _)
  refine ⟨h.grows, h.offset, fun v hv => ?_⟩
  rcases h.pool v hv with hv | hv | hv
  · exact .inl hv
  · exact .inr (.inr ⟨name, List.mem_singleton.mp hv⟩)
  · exact .inr (.inr hv)

theorem adds_plain (p : Program) (op : Opcode) : (p.plain op).Adds p 1 [] := adds_push p _

/-- A jump is one offset wide, wherever it leads. -/
theorem adds_goto (p : Program) (op : Opcode) (target : Nat) : (p.goto op target).Adds p 1 [] :=
  adds_push p _

/-- A return is added at the end of a function unless there is one already. -/
theorem adds_ite_plain (p : Program) (b : Bool) (op : Opcode) :
    (if b then p else p.plain op).Adds p (if b then 0 else 1) [] := by
  cases b with
  | true => exact .refl p
  | false => exact adds_plain p op

theorem functions_ite_plain (p : Program) (b : Bool) (op : Opcode) :
    (if b then p else p.plain op).functions = p.functions := by
  cases b <;> rfl

/-- Entering a function in the table adds no code. -/
theorem adds_addFunction (p : Program) (name : String) (entry : FunctionEntry) :
    (p.addFunction name entry).Adds p 0 [] :=
  ⟨⟨id, id, id⟩, rfl, fun _ hv => .inl hv⟩

mutual

/-- Generating an expression appends its instructions. -/
theorem adds_expr (p : Program) : ∀ e : Expr, (p.expr e).Adds p e.width e.literals
  | .literal _ value => by
    rw [expr, Expr.width, Expr.literals]
    exact adds_loadConstant p value
  | .name _ _ x => by
    rw [expr, Expr.width, Expr.literals]
    exact adds_loadVariable p x
  | .binary _ op left right => by
    rw [expr, Expr.width, Expr.literals]
    exact ((adds_expr p left).andThen (adds_expr _ right)).andCode (adds_plain _ _)
  | .not _ operand => by
    rw [expr, Expr.width, Expr.literals]
    exact (adds_expr p operand).andCode (adds_plain _ _)
  | .call _ _ f args => by
    rw [expr, Expr.width, Expr.literals]
    exact (adds_exprs p args).andCode (adds_callFunction _ _ _)

/-- The code of some expressions is as wide as they are together. -/
theorem adds_exprs (p : Program) : ∀ es : List Expr,
    (p.exprs es).Adds p (Expr.widths es) (Expr.literalsIn es)
  | [] => by
    rw [exprs, Expr.widths, Expr.literalsIn]
    exact .refl p
  | e :: rest => by
    rw [exprs, Expr.widths, Expr.literalsIn]
    exact (adds_expr p e).andThen (adds_exprs _ rest)

end

mutual

/-- Generating a statement appends its instructions. -/
theorem adds_stmt (p : Program) (around : Option LoopBounds) :
    ∀ s : Stmt, (p.stmt around s).Adds p s.width s.literals
  | .letStmt _ name none => by
    rw [stmt, Stmt.width, Stmt.literals]
    exact adds_addVariable p name
  | .letStmt _ name (some value) => by
    rw [stmt, Stmt.width, Stmt.literals]
    exact (adds_expr p value).andCode (adds_storeVariable _ _)
  | .fnStmt _ name params body => by
    rw [stmt, Stmt.width, Stmt.literals]
    exact (((adds_goto p _ _).andCode (adds_addFunction _ _ _)).andThen
      (adds_block _ none body)).andCode (adds_ite_plain _ _ _)
  | .returnStmt _ none => by
    rw [stmt, Stmt.width, Stmt.literals, Expr.width?]
    exact adds_plain p _
  | .returnStmt _ (some value) => by
    rw [stmt, Stmt.width, Stmt.literals, Expr.width?]
    exact (adds_expr p value).andCode (adds_plain _ _)
  -- Outside of loops there is nowhere to go, so an instruction that does nothing takes the place of
  -- the jump.
  | .breakStmt _ => by
    rw [Stmt.width, Stmt.literals]
    cases around with
    | none => rw [stmt]; exact adds_plain p _
    | some l => rw [stmt]; exact adds_goto p _ _
  | .continueStmt _ => by
    rw [Stmt.width, Stmt.literals]
    cases around with
    | none => rw [stmt]; exact adds_plain p _
    | some l => rw [stmt]; exact adds_goto p _ _
  | .ifStmt _ cond body => by
    rw [stmt, Stmt.width, Stmt.literals]
    exact ((adds_expr p cond).andCode (adds_goto _ _ _)).andThen (adds_block _ around body)
  | .ifElseStmt _ cond body other => by
    rw [stmt, Stmt.width, Stmt.literals]
    exact ((((adds_expr p cond).andCode (adds_goto _ _ _)).andThen
      (adds_block _ around body)).andCode (adds_goto _ _ _)).andThen (adds_block _ around other)
  | .whileStmt _ cond body => by
    rw [stmt, Stmt.width, Stmt.literals]
    exact (((adds_expr p cond).andCode (adds_goto _ _ _)).andThen
      (adds_block _ _ body)).andCode (adds_goto _ _ _)
  | .exprStmt _ value => by
    rw [stmt, Stmt.width, Stmt.literals]
    exact (adds_expr p value).andCode (adds_plain _ _)

/-- The code of a block is as wide as its statements together, and brings their literals in
order. -/
theorem adds_block (p : Program) (around : Option LoopBounds) : ∀ ss : List Stmt,
    (p.block around ss).Adds p (Stmt.widths ss) (Stmt.literalsIn ss)
  | [] => by
    rw [block, Stmt.widths, Stmt.literalsIn]
    exact .refl p
  | s :: rest => by
    rw [block, Stmt.widths, Stmt.literalsIn]
    exact (adds_stmt p around s).andThen (adds_block _ around rest)

end

theorem offset_addConstant (p : Program) (value : Literal) :
    (p.addConstant value).2.offset = p.offset :=
  (adds_addConstant p value).offset

theorem offset_addVariable (p : Program) (name : String) :
    (p.addVariable name).2.offset = p.offset :=
  (adds_addVariable p name).offset

/-- Generation goes on behind the code of an expression. -/
theorem offset_expr (p : Program) (e : Expr) : (p.expr e).offset = p.offset + e.width :=
  (adds_expr p e).offset

theorem offset_exprs (p : Program) (es : List Expr) :
    (p.exprs es).offset = p.offset + Expr.widths es :=
  (adds_exprs p es).offset

/-- Generation goes on behind the code of a statement. -/
theorem offset_stmt (p : Program) (around : Option LoopBounds) (s : Stmt) :
    (p.stmt around s).offset = p.offset + s.width :=
  (adds_stmt p around s).offset

theorem offset_block (p : Program) (around : Option LoopBounds) (ss : List Stmt) :
    (p.block around ss).offset = p.offset + Stmt.widths ss :=
  (adds_block p around ss).offset

theorem offset_goto (p : Program) (op : Opcode) (target : Nat) :
    (p.goto op target).offset = p.offset + 1 :=
  (adds_goto p op target).offset

theorem offset_addFunction (p : Program) (name : String) (entry : FunctionEntry) :
    (p.addFunction name entry).offset = p.offset := rfl

end Program

/-! ## The code of every tree is in its place -/

/-- Every constant of a program with which a literal can share its place is `same` as it. -/
def Program.Keeps (q : Program) (same : Literal → Literal → Prop) (value : Literal) : Prop :=
  same value value ∧ ∀ found ∈ q.constants, value.agrees found = true → same value found

section Generation

variable {q : Program} {same : Literal → Literal → Prop}

namespace Program

/-- Whatever extends a program with an instruction appended last holds it at that offset. -/
theorem code_of_extends_push {p : Program} {i : Instruction} (h : q.Extends (p.push i)) :
    q.code[p.offset]? = some i :=
  h.code (Array.getElem?_push_size ..)

/-- A program that goes on from the loading of a literal loads it there, or a literal that is `same`
as it and has its place in the pool. -/
theorem loadsAt_of_extends {p : Program} {value : Literal} (h : q.Extends (p.loadConstant value))
    (hv : q.Keeps same value) : q.LoadsAt same value p.offset := by
  obtain ⟨found, hfound, hagrees⟩ := constants_addConstant p value
  have hq : q.constants[(p.addConstant value).1]? = some found :=
    (h.trans (adds_push _ _).grows).constants hfound
  refine ⟨_, found, ?_, hq, ?_⟩
  · rw [← offset_addConstant p value]
    exact code_of_extends_push h
  · rcases hagrees with rfl | hagrees
    · exact hv.1
    · exact hv.2 found (Array.mem_of_getElem? hq) hagrees

/-- A program that goes on from an instruction on a variable has it there, with the name behind its
index. -/
theorem variableAt_of_extends {p : Program} {op : Opcode} {name : String}
    (h : q.Extends ((p.addVariable name).2.push ⟨op, (p.addVariable name).1, 0⟩)) :
    q.VariableAt op name p.offset := by
  refine ⟨_, ?_, (h.trans (adds_push _ _).grows).variableNames (variableNames_addVariable p name)⟩
  rw [← offset_addVariable p name]
  exact code_of_extends_push h

/-- A literal that agrees with a text is that text. -/
theorem eq_of_str_agrees {name : String} {found : Literal}
    (h : (Literal.str name).agrees found = true) : found = .str name := by
  cases found <;> simp_all [Literal.agrees]

/-- A program that goes on from a call has it there, with the name of the function behind its
index. -/
theorem callAt_of_extends {p : Program} {name : String} {args : Nat}
    (h : q.Extends (p.callFunction name args)) : q.CallAt name args p.offset := by
  obtain ⟨found, hfound, hagrees⟩ := constants_addConstant p (.str name)
  have hname : found = .str name := hagrees.elim id eq_of_str_agrees
  subst hname
  refine ⟨_, ?_, (h.trans (adds_push _ _).grows).constants hfound⟩
  rw [← offset_addConstant p (.str name)]
  exact code_of_extends_push h

mutual

/-- The code of an expression is where generation puts it. -/
theorem expr_at (p : Program) : ∀ e : Expr, q.Extends (p.expr e) →
    (∀ v ∈ e.literals, q.Keeps same v) → e.At q same p.offset
  | .literal _ value, h, hv => by
    rw [expr] at h
    rw [Expr.At]
    exact loadsAt_of_extends h (hv value (by simp [Expr.literals]))
  | .name _ _ x, h, _ => by
    rw [expr] at h
    rw [Expr.At]
    exact variableAt_of_extends h
  | .binary _ op left right, h, hv => by
    rw [expr] at h
    rw [Expr.literals] at hv
    have hr := h.trans (adds_plain _ _).grows
    have hl := hr.trans (adds_expr _ right).grows
    have hcode := code_of_extends_push h
    rw [offset_expr, offset_expr] at hcode
    have hright := expr_at _ right hr fun v hm => hv v (List.mem_append_right _ hm)
    rw [offset_expr] at hright
    rw [Expr.At]
    exact ⟨expr_at p left hl fun v hm => hv v (List.mem_append_left _ hm), hright, hcode⟩
  | .not _ operand, h, hv => by
    rw [expr] at h
    rw [Expr.literals] at hv
    have hcode := code_of_extends_push h
    rw [offset_expr] at hcode
    rw [Expr.At]
    exact ⟨expr_at p operand (h.trans (adds_plain _ _).grows) hv, hcode⟩
  | .call _ _ f args, h, hv => by
    rw [expr] at h
    rw [Expr.literals] at hv
    have hcall := callAt_of_extends h
    rw [offset_exprs] at hcall
    rw [Expr.At]
    exact ⟨exprs_at p args (h.trans (adds_callFunction _ _ _).grows) hv, hcall⟩

/-- The code of some expressions is where generation puts it. -/
theorem exprs_at (p : Program) : ∀ es : List Expr, q.Extends (p.exprs es) →
    (∀ v ∈ Expr.literalsIn es, q.Keeps same v) → Expr.AllAt q same es p.offset
  | [], _, _ => by rw [Expr.AllAt]; trivial
  | e :: rest, h, hv => by
    rw [exprs] at h
    rw [Expr.literalsIn] at hv
    have hrest := exprs_at _ rest h fun v hm => hv v (List.mem_append_right _ hm)
    rw [offset_expr] at hrest
    rw [Expr.AllAt]
    exact ⟨expr_at p e (h.trans (adds_exprs _ rest).grows) fun v hm =>
      hv v (List.mem_append_left _ hm), hrest⟩

end

mutual

/-- The code of a statement is where generation puts it. -/
theorem stmt_at (p : Program) (around : Option LoopBounds) : ∀ s : Stmt,
    q.Extends (p.stmt around s) → (∀ v ∈ s.literals, q.Keeps same v) →
      s.At q same around p.offset
  -- The parts of a statement are placed in one another's extensions, so what extends the last of
  -- them extends every one before it.
  | .letStmt _ name none, _, _ => by rw [Stmt.At]; trivial
  | .letStmt _ name (some value), h, hv => by
    rw [stmt] at h
    rw [Stmt.literals] at hv
    have hstore : q.VariableAt .storeVar name (p.expr value).offset := variableAt_of_extends h
    rw [offset_expr] at hstore
    rw [Stmt.At]
    exact ⟨expr_at p value (h.trans (adds_storeVariable _ _).grows) hv, hstore⟩
  | .fnStmt _ name params body, h, hv => by
    rw [stmt] at h
    rw [Stmt.literals] at hv
    have hbody := h.trans (adds_ite_plain _ _ _).grows
    have hskip := hbody.trans ((adds_block _ none body).grows.trans (adds_addFunction _ _ _).grows)
    have hall := block_at _ none body hbody hv
    rw [offset_addFunction, offset_goto] at hall
    rw [Stmt.At]
    refine ⟨code_of_extends_push hskip, hall, ?_⟩
    by_cases hends : endsWithReturn body = true
    · exact .inl hends
    · rw [if_neg hends] at h
      have hret := code_of_extends_push h
      rw [offset_block, offset_addFunction, offset_goto] at hret
      exact .inr hret
  | .returnStmt _ none, h, _ => by
    rw [stmt] at h
    rw [Stmt.At]
    exact code_of_extends_push h
  | .returnStmt _ (some value), h, hv => by
    rw [stmt] at h
    rw [Stmt.literals] at hv
    have hret := code_of_extends_push h
    rw [offset_expr] at hret
    rw [Stmt.At]
    exact ⟨expr_at p value (h.trans (adds_plain _ _).grows) hv, hret⟩
  | .breakStmt _, h, _ => by
    cases around with
    | none => rw [stmt] at h; rw [Stmt.At]; exact code_of_extends_push h
    | some l => rw [stmt] at h; rw [Stmt.At]; exact code_of_extends_push h
  | .continueStmt _, h, _ => by
    cases around with
    | none => rw [stmt] at h; rw [Stmt.At]; exact code_of_extends_push h
    | some l => rw [stmt] at h; rw [Stmt.At]; exact code_of_extends_push h
  | .ifStmt _ cond body, h, hv => by
    rw [stmt] at h
    rw [Stmt.literals] at hv
    have hgoto := h.trans (adds_block _ around body).grows
    have hjump := code_of_extends_push hgoto
    have hbody := block_at _ around body h fun v hm => hv v (List.mem_append_right _ hm)
    rw [offset_goto, offset_expr] at hbody
    rw [offset_expr] at hjump
    rw [Stmt.At]
    exact ⟨expr_at p cond (hgoto.trans (adds_goto _ _ _).grows) fun v hm =>
      hv v (List.mem_append_left _ hm), hjump, hbody⟩
  | .ifElseStmt _ cond body other, h, hv => by
    rw [stmt] at h
    rw [Stmt.literals] at hv
    have hgoto' := h.trans (adds_block _ around other).grows
    have hbody := hgoto'.trans (adds_goto _ _ _).grows
    have hgoto := hbody.trans (adds_block _ around body).grows
    have hjump := code_of_extends_push hgoto
    have hjump' := code_of_extends_push hgoto'
    have hthen := block_at _ around body hbody fun v hm =>
      hv v (List.mem_append_left _ (List.mem_append_right _ hm))
    have helse := block_at _ around other h fun v hm =>
      hv v (List.mem_append_right _ hm)
    rw [offset_expr] at hjump
    rw [offset_goto, offset_expr] at hthen
    rw [offset_block, offset_goto, offset_expr] at hjump'
    rw [offset_goto, offset_block, offset_goto, offset_expr] at helse
    rw [Stmt.At]
    exact ⟨expr_at p cond (hgoto.trans (adds_goto _ _ _).grows) fun v hm =>
      hv v (List.mem_append_left _ (List.mem_append_left _ hm)), hjump, hthen, hjump', helse⟩
  | .whileStmt _ cond body, h, hv => by
    rw [stmt] at h
    rw [Stmt.literals] at hv
    have hbody := h.trans (adds_goto _ _ _).grows
    have hgoto := hbody.trans (adds_block _ _ body).grows
    have hjump := code_of_extends_push hgoto
    have hback := code_of_extends_push h
    have hall := block_at _ _ body hbody fun v hm => hv v (List.mem_append_right _ hm)
    rw [offset_expr] at hjump
    rw [offset_goto, offset_expr] at hall
    rw [offset_block, offset_goto, offset_expr] at hback
    rw [Stmt.At]
    exact ⟨expr_at p cond (hgoto.trans (adds_goto _ _ _).grows) fun v hm =>
      hv v (List.mem_append_left _ hm), hjump, hall, hback⟩
  | .exprStmt _ value, h, hv => by
    rw [stmt] at h
    rw [Stmt.literals] at hv
    have hpop := code_of_extends_push h
    rw [offset_expr] at hpop
    rw [Stmt.At]
    exact ⟨expr_at p value (h.trans (adds_plain _ _).grows) hv, hpop⟩

/-- The code of a block is where generation puts it. -/
theorem block_at (p : Program) (around : Option LoopBounds) : ∀ ss : List Stmt,
    q.Extends (p.block around ss) → (∀ v ∈ Stmt.literalsIn ss, q.Keeps same v) →
      Stmt.AllAt q same around ss p.offset
  | [], _, _ => by rw [Stmt.AllAt]; trivial
  | s :: rest, h, hv => by
    rw [block] at h
    rw [Stmt.literalsIn] at hv
    have hrest := block_at _ around rest h fun v hm => hv v (List.mem_append_right _ hm)
    rw [offset_stmt] at hrest
    rw [Stmt.AllAt]
    exact ⟨stmt_at p around s (h.trans (adds_block _ around rest).grows) fun v hm =>
      hv v (List.mem_append_left _ hm), hrest⟩

end

/-! ## The function table -/

mutual

/-- The code of an expression enters no function in the table. -/
theorem functions_expr (p : Program) : ∀ e : Expr, (p.expr e).functions = p.functions
  | .literal _ value => by rw [expr]; exact functions_addConstant p value
  | .name _ _ x => by rw [expr]; exact functions_addVariable p x
  | .binary _ _ left right => by
    rw [expr, plain, push, functions_expr _ right, functions_expr p left]
  | .not _ operand => by rw [expr, plain, push, functions_expr p operand]
  | .call _ _ f args => by
    rw [expr]
    exact (functions_addConstant _ _).trans (functions_exprs p args)

theorem functions_exprs (p : Program) : ∀ es : List Expr, (p.exprs es).functions = p.functions
  | [] => by rw [exprs]
  | e :: rest => by rw [exprs, functions_exprs _ rest, functions_expr p e]

end

end Program

/-- The last function of a name when one more is defined behind the others. -/
theorem Definition.last?_concat (defs : List Definition) (d : Definition) (name : String) :
    Definition.last? (defs ++ [d]) name =
      if d.name == name then some d else Definition.last? defs name := by
  simp only [last?, List.reverse_append, List.reverse_cons, List.reverse_nil, List.nil_append,
    List.cons_append, List.find?_cons]
  cases d.name == name <;> rfl

/-- Entering a function at an offset that is right for it keeps a table right. -/
theorem TableOf.insert {right : Definition → Nat → Prop} {table : SortedMap String FunctionEntry}
    {defs : List Definition} (h : TableOf right table defs) {d : Definition} {a : Nat}
    (hd : right d a) : TableOf right (table.insert d.name ⟨a, d.params⟩) (defs ++ [d]) := by
  intro name
  rw [Definition.last?_concat]
  by_cases hname : d.name = name
  · subst hname
    rw [if_pos (beq_self_eq_true _)]
    exact ⟨a, by rw [SortedMap.find?_insert, if_pos rfl], hd⟩
  · rw [if_neg (by simpa using hname)]
    rw [SortedMap.find?_insert, if_neg (fun he => hname he.symm)]
    exact h name

/-- The offsets of all function bodies among some statements are right for them. -/
def Stmt.BodiesRight (right : Definition → Nat → Prop) (placed : List Placed) : Prop :=
  ∀ span name params body inside a, ⟨.fnStmt span name params body, inside, a⟩ ∈ placed →
    right ⟨name, params, body⟩ (a + 1)

namespace Program

variable {right : Definition → Nat → Prop}

mutual

/-- Generation enters every function of a statement, in the order of their definitions. -/
theorem table_stmt (p : Program) (around : Option LoopBounds) (inside : Bool)
    (defs : List Definition) :
    ∀ s : Stmt, Stmt.BodiesRight right (⟨s, inside, p.offset⟩ :: s.inner inside p.offset) →
      TableOf right p.functions defs →
      TableOf right (p.stmt around s).functions (defs ++ s.definitions)
  | .letStmt _ name none, _, ht => by
    rw [stmt, functions_addVariable, Stmt.definitions, List.append_nil]
    exact ht
  | .letStmt _ name (some value), _, ht => by
    rw [stmt, Stmt.definitions, List.append_nil]
    rw [← functions_expr p value, ← functions_addVariable _ name] at ht
    exact ht
  | .fnStmt span name params body, h, ht => by
    -- The entry is made before the body, so a function inside of the same name comes later.
    have hentry : TableOf right (p.functions.insert name ⟨p.offset + 1, params⟩)
        (defs ++ [⟨name, params, body⟩]) :=
      ht.insert (h span name params body inside p.offset (List.mem_cons_self ..))
    rw [stmt, Stmt.definitions, functions_ite_plain, ← List.singleton_append, ← List.append_assoc]
    refine table_block _ none true _ body (fun sp n ps b i a hm => ?_) hentry
    rw [offset_addFunction, offset_goto] at hm
    exact h sp n ps b i a (List.mem_cons_of_mem _ (by rwa [Stmt.inner]))
  | .returnStmt _ none, _, ht => by
    rw [stmt, Stmt.definitions, List.append_nil]
    exact ht
  | .returnStmt _ (some value), _, ht => by
    rw [stmt, Stmt.definitions, List.append_nil]
    rw [← functions_expr p value] at ht
    exact ht
  | .breakStmt _, _, ht => by
    rw [Stmt.definitions, List.append_nil]
    cases around with
    | none => rw [stmt]; exact ht
    | some l => rw [stmt]; exact ht
  | .continueStmt _, _, ht => by
    rw [Stmt.definitions, List.append_nil]
    cases around with
    | none => rw [stmt]; exact ht
    | some l => rw [stmt]; exact ht
  | .ifStmt _ cond body, h, ht => by
    rw [stmt, Stmt.definitions]
    rw [← functions_expr p cond] at ht
    refine table_block _ around inside defs body (fun sp n ps b i a hm => ?_) ht
    rw [offset_goto, offset_expr] at hm
    exact h sp n ps b i a (List.mem_cons_of_mem _ (by rwa [Stmt.inner]))
  | .ifElseStmt _ cond body other, h, ht => by
    rw [stmt, Stmt.definitions, ← List.append_assoc]
    rw [← functions_expr p cond] at ht
    refine table_block _ around inside _ other (fun sp n ps b i a hm => ?_)
      (table_block _ around inside defs body (fun sp n ps b i a hm => ?_) ht)
    · rw [offset_goto, offset_block, offset_goto, offset_expr] at hm
      refine h sp n ps b i a (List.mem_cons_of_mem _ ?_)
      rw [Stmt.inner]
      exact List.mem_append_right _ hm
    · rw [offset_goto, offset_expr] at hm
      refine h sp n ps b i a (List.mem_cons_of_mem _ ?_)
      rw [Stmt.inner]
      exact List.mem_append_left _ hm
  | .whileStmt _ cond body, h, ht => by
    rw [stmt, Stmt.definitions]
    rw [← functions_expr p cond] at ht
    refine table_block _ _ inside defs body (fun sp n ps b i a hm => ?_) ht
    rw [offset_goto, offset_expr] at hm
    exact h sp n ps b i a (List.mem_cons_of_mem _ (by rwa [Stmt.inner]))
  | .exprStmt _ value, _, ht => by
    rw [stmt, Stmt.definitions, List.append_nil]
    rw [← functions_expr p value] at ht
    exact ht

/-- Behind a block the table holds the functions of the block as well, in the order of the text. -/
theorem table_block (p : Program) (around : Option LoopBounds) (inside : Bool)
    (defs : List Definition) :
    ∀ ss : List Stmt, Stmt.BodiesRight right (Stmt.placed inside ss p.offset) →
      TableOf right p.functions defs →
      TableOf right (p.block around ss).functions (defs ++ Stmt.definitionsIn ss)
  | [], _, ht => by
    rw [block, Stmt.definitionsIn, List.append_nil]
    exact ht
  | s :: rest, h, ht => by
    rw [Stmt.placed] at h
    rw [block, Stmt.definitionsIn, ← List.append_assoc]
    refine table_block _ around inside _ rest (fun sp n ps b i a hm => ?_)
      (table_stmt p around inside defs s (fun sp n ps b i a hm => ?_) ht)
    · rw [offset_stmt] at hm
      exact h sp n ps b i a (List.mem_append_right _ hm)
    · exact h sp n ps b i a (List.mem_append_left _ hm)

end

end Program

end Generation

/-! ## Generated programs -/

section Generated

variable {same : Literal → Literal → Prop}

/-- The program of a module has the instructions of its statements and no others. -/
theorem Module.size_generate (m : Module) : m.generate.code.size = Stmt.widths m.body := by
  have h := Program.offset_block Program.empty none m.body
  rwa [show Program.empty.offset = 0 from rfl, Nat.zero_add] at h

/-- The code of the statements of a module stands at the beginning of its program. -/
theorem Module.generate_at (m : Module)
    (hv : ∀ v ∈ Stmt.literalsIn m.body, m.generate.Keeps same v) :
    Stmt.AllAt m.generate same none m.body 0 :=
  Program.block_at Program.empty none m.body (.refl _) hv

/-- The function table of the program of a module holds the last function of every name. -/
theorem Module.generate_table (m : Module) {right : Definition → Nat → Prop}
    (h : Stmt.BodiesRight right m.placed) :
    TableOf right m.generate.functions (Stmt.definitionsIn m.body) :=
  Program.table_block Program.empty none false [] m.body h fun _ => rfl

/-- The code of every function of a module stands behind the jump over it. -/
theorem Module.bodies_at {m : Module} (h : Stmt.AllAt m.generate same none m.body 0) :
    Stmt.BodiesRight (Definition.At m.generate same) m.placed := by
  intro span name params body inside a hm
  obtain ⟨l, hat⟩ := Stmt.at_of_mem_placed none false m.body 0 h _ hm
  rw [Stmt.At] at hat
  exact ⟨Program.lt_size_of_code hat.1, hat.2⟩

/-- The constants of the program of a module are its literals and texts. -/
theorem Module.mem_constants_generate {m : Module} {v : Literal} (h : v ∈ m.generate.constants) :
    v ∈ Stmt.literalsIn m.body ∨ ∃ name, v = .str name := by
  rcases (Program.adds_block Program.empty none m.body).pool v h with h | h | h
  · exact absurd h (Array.not_mem_empty v)
  · exact .inl h
  · exact .inr h

end Generated

end Scriptlet
