import Scriptlet.Proofs.Placement

/-!
# Jumps written before their targets are known

Code that is written from the first instruction to the last meets a jump forward before it knows
where the jump leads.  A draft has such jumps with the target zero, and points each of them to its
target once the code has come so far.  The draft of a module comes to the program of the module, and
nothing but jumps is ever pointed to a target (`Module.drafted_program`, `Module.drafted_patched`).
-/

namespace Scriptlet

/-! ## Drafts -/

/-- A loop whose code is being written: where it starts, and where the jumps out of it stand. -/
structure OpenLoop where
  start : Nat
  breaks : List Nat

/-- A program that is being written, the loops around the place that is reached, the innermost
first, and the operations that were pointed to a target, the latest first. -/
structure Draft where
  program : Program
  loops : List OpenLoop
  patched : List (Option Opcode)

namespace Draft

/-- Work on the program alone. -/
def write (d : Draft) (f : Program → Program) : Draft := { d with program := f d.program }

/-- Go on inside of other loops. -/
def withLoops (d : Draft) (loops : List OpenLoop) : Draft := { d with loops := loops }

/-- Point the instruction at a site to a target. -/
def patch (d : Draft) (site target : Nat) : Draft where
  program := d.program.redirect site target
  loops := d.loops
  patched := (d.program.code[site]?).map Instruction.op :: d.patched

/-- Point the instructions at some sites to a target. -/
def patchAll (d : Draft) (sites : List Nat) (target : Nat) : Draft :=
  sites.foldl (fun d site => d.patch site target) d

mutual

/-- Write the code of a statement. -/
def stmt (d : Draft) : Stmt → Draft
  | .letStmt _ name none => d.write fun p => (p.addVariable name).2
  | .letStmt _ name (some value) => d.write fun p => (p.expr value).storeVariable name
  | .fnStmt _ name params body =>
    let skip := d.program.offset
    let entered := d.write fun p => (p.goto .jump 0).addFunction name ⟨skip + 1, params⟩
    -- A loop around the function is not one around its body.
    let written := ((entered.withLoops []).block body).withLoops d.loops
    let closed := if endsWithReturn body then written else written.write (·.plain .ret)
    closed.patch skip closed.program.offset
  | .returnStmt _ none => d.write (·.plain .ret)
  | .returnStmt _ (some value) => d.write fun p => (p.expr value).plain .ret
  | .breakStmt _ =>
    match d.loops with
    | [] => d.write (·.plain .nop)
    | l :: outer =>
      (d.write (·.goto .jump 0)).withLoops (⟨l.start, l.breaks ++ [d.program.offset]⟩ :: outer)
  | .continueStmt _ =>
    match d.loops with
    | [] => d.write (·.plain .nop)
    | l :: _ => d.write (·.goto .jump l.start)
  | .ifStmt _ cond body =>
    let tested := d.write (·.expr cond)
    let written := (tested.write (·.goto .jumpIfFalse 0)).block body
    written.patch tested.program.offset written.program.offset
  | .ifElseStmt _ cond body other =>
    let tested := d.write (·.expr cond)
    let written := (tested.write (·.goto .jumpIfFalse 0)).block body
    let between := written.write (·.goto .jump 0)
    let closed := (between.patch tested.program.offset between.program.offset).block other
    closed.patch written.program.offset closed.program.offset
  | .whileStmt _ cond body =>
    let tested := d.write (·.expr cond)
    let entered := tested.write (·.goto .jumpIfFalse 0)
    let written := (entered.withLoops (⟨d.program.offset, []⟩ :: d.loops)).block body
    let left := (written.withLoops written.loops.tail).write (·.goto .jump d.program.offset)
    let exit := left.program.offset
    (left.patch tested.program.offset exit).patchAll (written.loops.headD ⟨0, []⟩).breaks exit
  | .exprStmt _ value => d.write fun p => (p.expr value).plain .pop

/-- Write the code of some statements. -/
def block (d : Draft) : List Stmt → Draft
  | [] => d
  | s :: rest => (d.stmt s).block rest

end

end Draft

/-- The draft of a module, from the first statement to the last. -/
def Module.drafted (m : Module) : Draft := (Draft.mk Program.empty [] []).block m.body

/-! ## Programs with targets to come -/

namespace Program

/-- A program is another one, except that jumps at some sites are not yet pointed to their targets.
The list of holes has each of these sites with its target. -/
structure DraftOf (q p : Program) (holes : List (Nat × Nat)) : Prop where
  constants : q.constants = p.constants
  variableNames : q.variableNames = p.variableNames
  functions : q.functions = p.functions
  builtins : q.builtins = p.builtins
  size : q.code.size = p.code.size
  code : ∀ i, (∀ h ∈ holes, h.1 ≠ i) → q.code[i]? = p.code[i]?
  hole : ∀ h ∈ holes, ∃ op old, op.isJump = true ∧ q.code[h.1]? = some ⟨op, old, 0⟩ ∧
    p.code[h.1]? = some ⟨op, h.2, 0⟩

namespace DraftOf

variable {q p : Program} {holes holes' : List (Nat × Nat)}

theorem refl (p : Program) : p.DraftOf p [] := ⟨rfl, rfl, rfl, rfl, rfl, fun _ _ => rfl, nofun⟩

/-- A draft without holes is the program. -/
theorem eq (h : q.DraftOf p []) : q = p := by
  obtain ⟨hconstants, hvariables, hfunctions, hbuiltins, -, hcode, -⟩ := h
  have hcode : q.code = p.code := Array.ext_getElem? fun i => hcode i nofun
  obtain ⟨code, constants, variableNames, functions, builtins⟩ := q
  simp_all

theorem offset (h : q.DraftOf p holes) : q.offset = p.offset := h.size

/-- The order of the holes does not matter. -/
theorem congr (h : q.DraftOf p holes) (hsame : ∀ x, x ∈ holes' ↔ x ∈ holes) :
    q.DraftOf p holes' where
  constants := h.constants
  variableNames := h.variableNames
  functions := h.functions
  builtins := h.builtins
  size := h.size
  code i hi := h.code i fun x hx => hi x ((hsame x).mpr hx)
  hole x hx := h.hole x ((hsame x).mp hx)

/-- The same instruction on both sides. -/
theorem push (h : q.DraftOf p holes) (x : Instruction) : (q.push x).DraftOf (p.push x) holes where
  constants := h.constants
  variableNames := h.variableNames
  functions := h.functions
  builtins := h.builtins
  size := by
    show (q.code.push x).size = (p.code.push x).size
    rw [Array.size_push, Array.size_push, h.size]
  code i hi := by
    show (q.code.push x)[i]? = (p.code.push x)[i]?
    rw [Array.getElem?_push, Array.getElem?_push, h.size, h.code i hi]
  hole y hy := by
    obtain ⟨op, old, hop, hq, hp⟩ := h.hole y hy
    exact ⟨op, old, hop, getElem?_push_of_eq_some hq, getElem?_push_of_eq_some hp⟩

/-- A jump whose target is to come makes a hole. -/
theorem openHole (h : q.DraftOf p holes) (op : Opcode) (hop : op.isJump = true) (target : Nat) :
    (q.goto op 0).DraftOf (p.goto op target) ((p.offset, target) :: holes) where
  constants := h.constants
  variableNames := h.variableNames
  functions := h.functions
  builtins := h.builtins
  size := by
    show (q.code.push _).size = (p.code.push _).size
    rw [Array.size_push, Array.size_push, h.size]
  code i hi := by
    have hne : i ≠ p.code.size := fun he => hi _ (List.mem_cons_self ..) he.symm
    show (q.code.push _)[i]? = (p.code.push _)[i]?
    rw [Array.getElem?_push, Array.getElem?_push, h.size, if_neg hne, if_neg hne,
      h.code i fun y hy => hi y (List.mem_cons_of_mem _ hy)]
  hole y hy := by
    rcases List.mem_cons.mp hy with rfl | hy
    · refine ⟨op, 0, hop, ?_, Array.getElem?_push_size⟩
      show (q.code.push _)[p.code.size]? = _
      rw [← h.size]
      exact Array.getElem?_push_size
    · obtain ⟨op', old, hop', hq, hp⟩ := h.hole y hy
      exact ⟨op', old, hop', getElem?_push_of_eq_some hq, getElem?_push_of_eq_some hp⟩

/-- Pointing the jump of a hole to its target closes the hole. -/
theorem closeHole {site target : Nat} (h : q.DraftOf p ((site, target) :: holes)) :
    (q.redirect site target).DraftOf p holes := by
  have hget : ∀ i, (q.redirect site target).code[i]? =
      if site = i then (q.code[i]?).map ({ · with arg1 := target }) else q.code[i]? := fun i =>
    Array.getElem?_modify
  obtain ⟨op, old, hop, hq, hp⟩ := h.hole _ (List.mem_cons_self ..)
  refine ⟨h.constants, h.variableNames, h.functions, h.builtins, ?_, ?_, ?_⟩
  · rw [← h.size]
    exact Array.size_modify
  · intro i hi
    rw [hget]
    by_cases hsite : site = i
    · subst hsite
      rw [if_pos rfl, hq, hp]
      rfl
    · rw [if_neg hsite]
      exact h.code i (List.forall_mem_cons.mpr ⟨hsite, hi⟩)
  · intro y hy
    obtain ⟨op', old', hop', hq', hp'⟩ := h.hole y (List.mem_cons_of_mem _ hy)
    rw [hget, hq']
    by_cases hsite : site = y.1
    · exact ⟨op', target, hop', by rw [if_pos hsite]; rfl, hp'⟩
    · exact ⟨op', old', hop', by rw [if_neg hsite], hp'⟩

/-! ## Code without jumps -/

/-- Constants have the same indices in a draft. -/
theorem addConstant (h : q.DraftOf p holes) (value : Literal) :
    (q.addConstant value).1 = (p.addConstant value).1 ∧
      (q.addConstant value).2.DraftOf (p.addConstant value).2 holes := by
  unfold Program.addConstant
  rw [h.constants]
  split
  · exact ⟨rfl, h⟩
  · exact ⟨rfl, rfl, h.variableNames, h.functions, h.builtins, h.size, h.code, h.hole⟩

/-- Variable names have the same indices in a draft. -/
theorem addVariable (h : q.DraftOf p holes) (name : String) :
    (q.addVariable name).1 = (p.addVariable name).1 ∧
      (q.addVariable name).2.DraftOf (p.addVariable name).2 holes := by
  unfold Program.addVariable
  rw [h.variableNames]
  split
  · exact ⟨rfl, h⟩
  · exact ⟨rfl, h.constants, rfl, h.functions, h.builtins, h.size, h.code, h.hole⟩

/-- Functions are entered in a draft as in the program. -/
theorem addFunction (h : q.DraftOf p holes) (name : String) (entry : FunctionEntry) :
    (q.addFunction name entry).DraftOf (p.addFunction name entry) holes :=
  ⟨h.constants, h.variableNames, congrArg (·.insert name entry) h.functions, h.builtins, h.size,
    h.code, h.hole⟩

/-- An instruction that points to a constant. -/
theorem pushConstant (h : q.DraftOf p holes) (value : Literal) (x : Nat → Instruction) :
    ((q.addConstant value).2.push (x (q.addConstant value).1)).DraftOf
      ((p.addConstant value).2.push (x (p.addConstant value).1)) holes := by
  obtain ⟨hindex, hpool⟩ := h.addConstant value
  rw [hindex]
  exact hpool.push _

/-- An instruction that points to a variable. -/
theorem pushVariable (h : q.DraftOf p holes) (name : String) (x : Nat → Instruction) :
    ((q.addVariable name).2.push (x (q.addVariable name).1)).DraftOf
      ((p.addVariable name).2.push (x (p.addVariable name).1)) holes := by
  obtain ⟨hindex, hpool⟩ := h.addVariable name
  rw [hindex]
  exact hpool.push _

theorem storeVariable (h : q.DraftOf p holes) (name : String) :
    (q.storeVariable name).DraftOf (p.storeVariable name) holes :=
  h.pushVariable name (⟨.storeVar, ·, 0⟩)

theorem plain (h : q.DraftOf p holes) (op : Opcode) : (q.plain op).DraftOf (p.plain op) holes :=
  h.push _

mutual

/-- An expression has no jumps, so its code brings no holes. -/
theorem expr {q p : Program} (h : q.DraftOf p holes) : ∀ e : Expr,
    (q.expr e).DraftOf (p.expr e) holes
  | .literal _ value => by
    rw [Program.expr, Program.expr]
    exact h.pushConstant value (⟨.loadConst, ·, 0⟩)
  | .name _ _ x => by
    rw [Program.expr, Program.expr]
    exact h.pushVariable x (⟨.loadVar, ·, 0⟩)
  | .binary _ op left right => by
    rw [Program.expr, Program.expr]
    exact ((h.expr left).expr right).plain op.opcode
  | .not _ operand => by
    rw [Program.expr, Program.expr]
    exact (h.expr operand).plain .not
  | .call _ _ f args => by
    rw [Program.expr, Program.expr]
    exact (h.exprs args).pushConstant (.str f) (⟨.call, ·, args.length⟩)

/-- The code of some expressions has no jumps, so it leaves the holes as they are. -/
theorem exprs {q p : Program} (h : q.DraftOf p holes) : ∀ es : List Expr,
    (q.exprs es).DraftOf (p.exprs es) holes
  | [] => by
    rw [Program.exprs, Program.exprs]
    exact h
  | e :: rest => by
    rw [Program.exprs, Program.exprs]
    exact (h.expr e).exprs rest

end

end DraftOf

/-- The holes that jumps at some sites out of a loop make. -/
def exits : Option LoopBounds → List Nat → List (Nat × Nat)
  | none, _ => []
  | some l, sites => sites.map (·, l.exit)

@[simp] theorem exits_nil (around : Option LoopBounds) : exits around [] = [] := by
  cases around <;> rfl

/-- The holes of two parts of a loop. -/
theorem exits_append (around : Option LoopBounds) (sites sites' : List Nat) :
    exits around (sites ++ sites') = exits around sites ++ exits around sites' := by
  cases around with
  | none => rfl
  | some l => exact List.map_append

end Program

/-! ## What a draft comes to -/

namespace Draft

/-- A draft knows where the loop around starts. -/
def Around (d : Draft) (around : Option Program.LoopBounds) : Prop :=
  d.loops.head?.map OpenLoop.start = around.map Program.LoopBounds.start

/-- A draft has gone on to a draft of a program with some holes.  It has got jumps at some sites out
of the innermost loop, and has pointed nothing but jumps to a target. -/
structure Advances (d' d : Draft) (sites : List Nat) (p : Program) (holes : List (Nat × Nat)) :
    Prop where
  program : d'.program.DraftOf p holes
  loops : d'.loops = d.loops.modifyHead fun l => ⟨l.start, l.breaks ++ sites⟩
  patched : ∀ hit ∈ d'.patched, hit ∈ d.patched ∨ ∃ op, hit = some op ∧ op.isJump = true

variable {d d' d'' : Draft} {p p' : Program} {sites sites' : List Nat}
  {holes holes' : List (Nat × Nat)} {around : Option Program.LoopBounds}

namespace Advances

/-- A draft that has not gone on has no new jumps. -/
theorem refl (h : d.program.DraftOf p holes) : d.Advances d [] p holes := by
  refine ⟨h, ?_, fun hit hhit => .inl hhit⟩
  cases d.loops with
  | nil => rfl
  | cons l outer => rw [List.modifyHead_cons, List.append_nil]

/-- A draft that goes on twice has the jumps of both parts. -/
theorem trans (h : d'.Advances d sites p holes) (h' : d''.Advances d' sites' p' holes') :
    d''.Advances d (sites ++ sites') p' holes' := by
  refine ⟨h'.program, ?_, fun hit hhit => ?_⟩
  · rw [h'.loops, h.loops]
    cases d.loops with
    | nil => rfl
    | cons l outer => simp only [List.modifyHead_cons, List.append_assoc]
  · rcases h'.patched hit hhit with hhit | hjump
    · exact h.patched hit hhit
    · exact .inr hjump

/-- Holes can be listed in any order. -/
theorem congr (h : d'.Advances d sites p holes) (hsame : ∀ x, x ∈ holes' ↔ x ∈ holes) :
    d'.Advances d sites p holes' :=
  ⟨h.program.congr hsame, h.loops, h.patched⟩

/-- Going on keeps what is known of the loop around. -/
theorem knows (h : d'.Advances d sites p holes) (ha : d.Around around) : d'.Around around := by
  rw [Around, ← ha, h.loops]
  cases d.loops <;> rfl

/-- Work on the program alone changes neither the loops nor what was pointed to a target. -/
theorem write (h : d'.Advances d sites p holes) {f : Program → Program}
    (hf : (f d'.program).DraftOf p' holes') : (d'.write f).Advances d sites p' holes' :=
  ⟨hf, h.loops, h.patched⟩

/-- A draft goes on by the code of an expression without new jumps. -/
theorem expr (h : d'.Advances d sites p holes) (e : Expr) :
    (d'.write (·.expr e)).Advances d sites (p.expr e) holes :=
  h.write (h.program.expr e)

/-- A jump that is written without its target makes one more hole. -/
theorem goto (h : d'.Advances d sites p holes) (op : Opcode) (hop : op.isJump = true)
    (target : Nat) :
    (d'.write (·.goto op 0)).Advances d sites (p.goto op target) ((p.offset, target) :: holes) :=
  h.write (h.program.openHole op hop target)

theorem inside (h : d'.Advances d sites p holes) (loops : List OpenLoop) :
    (d'.withLoops loops).program.DraftOf p holes :=
  h.program

/-- The code inside of other loops gives no jumps out of the loops that were left. -/
theorem leave {loops : List OpenLoop} (h : d'.Advances d [] p holes)
    (h' : d''.Advances (d'.withLoops loops) sites p' holes') :
    (d''.withLoops d.loops).Advances d [] p' holes' := by
  refine ⟨h'.program, (refl (.refl d.program)).loops, fun hit hhit => ?_⟩
  rcases h'.patched hit hhit with hhit | hjump
  · exact h.patched hit hhit
  · exact .inr hjump

/-- The instruction of a hole is a jump, so a jump is pointed to its target. -/
theorem patch (h : d'.Advances d sites p holes') (site target : Nat) (holes : List (Nat × Nat))
    (hsame : ∀ x, x ∈ (site, target) :: holes ↔ x ∈ holes') :
    (d'.patch site target).Advances d sites p holes := by
  have hdraft := h.program.congr hsame
  refine ⟨hdraft.closeHole, h.loops, fun hit hhit => ?_⟩
  rcases List.mem_cons.mp hhit with rfl | hhit
  · obtain ⟨op, old, hop, hcode, -⟩ := hdraft.hole _ (List.mem_cons_self ..)
    exact .inr ⟨op, by rw [hcode]; rfl, hop⟩
  · exact h.patched hit hhit

/-- Pointing jumps to their target fills their holes. -/
theorem patchAll {target : Nat} (h : d'.Advances d sites p (sites'.map (·, target) ++ holes)) :
    (d'.patchAll sites' target).Advances d sites p holes := by
  induction sites' generalizing d' with
  | nil => exact h
  | cons site rest ih => exact ih (h.patch site target _ fun _ => Iff.rfl)

end Advances

/-- Code without jumps brings no holes. -/
theorem exists_advances_write {f : Program → Program} (h : (f d.program).DraftOf p holes)
    (around : Option Program.LoopBounds) :
    ∃ sites, (d.write f).Advances d sites p (Program.exits around sites ++ holes) := by
  refine ⟨[], ?_⟩
  rw [Program.exits_nil]
  exact (Advances.refl (.refl d.program)).write h

/-- Writing the code of a statement comes to a draft of the program with that code, in which only
the jumps out of the loop around are still without targets. -/
def WritesStmt (around : Option Program.LoopBounds) (s : Stmt) : Prop :=
  ∀ {d : Draft} {p : Program} {holes : List (Nat × Nat)}, d.program.DraftOf p holes →
    d.Around around →
    ∃ sites, (d.stmt s).Advances d sites (p.stmt around s) (Program.exits around sites ++ holes)

/-- The same for a block. -/
def WritesBlock (around : Option Program.LoopBounds) (ss : List Stmt) : Prop :=
  ∀ {d : Draft} {p : Program} {holes : List (Nat × Nat)}, d.program.DraftOf p holes →
    d.Around around →
    ∃ sites, (d.block ss).Advances d sites (p.block around ss) (Program.exits around sites ++ holes)

/-- A statement without jumps brings no holes. -/
theorem writes_plain (around : Option Program.LoopBounds) {s : Stmt} {f : Program → Program}
    (hdraft : ∀ d : Draft, d.stmt s = d.write f) (hprogram : ∀ p : Program, p.stmt around s = f p)
    (hf : ∀ {q p : Program} {holes : List (Nat × Nat)}, q.DraftOf p holes →
      (f q).DraftOf (f p) holes) : WritesStmt around s := by
  intro d p holes h _
  rw [hdraft, hprogram]
  exact exists_advances_write (hf h) around

/-- The jump over a function is pointed behind the body, which has no loop around it and so leaves
no holes. -/
theorem writes_fn (around : Option Program.LoopBounds) (span : Span) (name : String)
    (params : List String) {body : List Stmt} (hblock : WritesBlock none body) :
    WritesStmt around (.fnStmt span name params body) := by
  intro d p holes h ha
  rw [Draft.stmt, Program.stmt, h.offset]
  generalize hfinish : p.offset + 1 + Stmt.widths body +
    (if endsWithReturn body then 0 else 1) = finish
  have hentered := (Advances.refl h).write (f := fun q =>
    (q.goto .jump 0).addFunction name ⟨p.offset + 1, params⟩)
    ((h.openHole .jump rfl finish).addFunction name ⟨p.offset + 1, params⟩)
  obtain ⟨sites, hbody⟩ := hblock (hentered.inside []) rfl
  have hwritten := hentered.leave hbody
  have hoffset : (((p.goto .jump finish).addFunction name ⟨p.offset + 1, params⟩).block none
      body).offset = p.offset + 1 + Stmt.widths body := by
    rw [Program.offset_block, Program.offset_addFunction, Program.offset_goto]
  generalize ((d.write _).withLoops []).block body = written at *
  refine ⟨[], ?_⟩
  rw [Program.exits_nil]
  cases hends : endsWithReturn body with
  | true =>
    simp only [hends, if_true] at hfinish ⊢
    rw [hwritten.program.offset, hoffset, show p.offset + 1 + Stmt.widths body = finish by omega]
    exact hwritten.patch _ _ _ fun _ => Iff.rfl
  | false =>
    simp only [hends, Bool.false_eq_true, if_false] at hfinish ⊢
    have hclosed := hwritten.write (f := (·.plain .ret)) (hwritten.program.plain .ret)
    rw [hclosed.program.offset, (Program.adds_plain _ _).offset, hoffset, hfinish]
    exact hclosed.patch _ _ _ fun _ => Iff.rfl

/-- A `break` leaves a hole that is closed behind the loop. -/
theorem writes_break (around : Option Program.LoopBounds) (span : Span) :
    WritesStmt around (.breakStmt span) := by
  intro d p holes h ha
  rw [Draft.stmt]
  rw [Around] at ha
  cases around with
  | none =>
    cases hloops : d.loops with
    | nil =>
      rw [Program.stmt]
      exact exists_advances_write (h.plain .nop) none
    | cons l outer => rw [hloops] at ha; cases ha
  | some bounds =>
    cases hloops : d.loops with
    | nil => rw [hloops] at ha; cases ha
    | cons l outer =>
      rw [Program.stmt]
      refine ⟨[d.program.offset], ?_, ?_, fun hit hhit => .inl hhit⟩
      · rw [h.offset]
        exact h.openHole .jump rfl bounds.exit
      · rw [hloops]
        rfl

/-- A `continue` jumps back, so its target is known. -/
theorem writes_continue (around : Option Program.LoopBounds) (span : Span) :
    WritesStmt around (.continueStmt span) := by
  intro d p holes h ha
  rw [Draft.stmt]
  rw [Around] at ha
  cases around with
  | none =>
    cases hloops : d.loops with
    | nil =>
      rw [Program.stmt]
      exact exists_advances_write (h.plain .nop) none
    | cons l outer => rw [hloops] at ha; cases ha
  | some bounds =>
    cases hloops : d.loops with
    | nil => rw [hloops] at ha; cases ha
    | cons l outer =>
      rw [hloops] at ha
      have hstart : l.start = bounds.start := Option.some.inj ha
      rw [Program.stmt]
      refine exists_advances_write ?_ (some bounds)
      rw [hstart]
      exact h.push _

/-- The jump over a branch is pointed behind it. -/
theorem writes_if (around : Option Program.LoopBounds) (span : Span) (cond : Expr)
    {body : List Stmt} (hblock : WritesBlock around body) :
    WritesStmt around (.ifStmt span cond body) := by
  intro d p holes h ha
  rw [Draft.stmt, Program.stmt]
  have hcond := (Advances.refl h).expr cond
  have hopen := hcond.goto .jumpIfFalse rfl ((p.expr cond).offset + 1 + Stmt.widths body)
  obtain ⟨sites, hbody⟩ := hblock hopen.program (hopen.knows ha)
  refine ⟨sites, (hopen.trans hbody).patch _ _ _ fun x => ?_⟩
  rw [hcond.program.offset, hbody.program.offset, Program.offset_block, Program.offset_goto]
  simp only [List.mem_append, List.mem_cons]
  grind

/-- The jump over the other branch is open when the first jump is pointed to that branch. -/
theorem writes_ifElse (around : Option Program.LoopBounds) (span : Span) (cond : Expr)
    {body other : List Stmt} (hblock : WritesBlock around body)
    (hblock' : WritesBlock around other) :
    WritesStmt around (.ifElseStmt span cond body other) := by
  intro d p holes h ha
  rw [Draft.stmt, Program.stmt]
  generalize hstart : (p.expr cond).offset + 1 + Stmt.widths body + 1 = otherStart
  have hcond := (Advances.refl h).expr cond
  have hopen := hcond.goto .jumpIfFalse rfl otherStart
  obtain ⟨sites, hbody⟩ := hblock hopen.program (hopen.knows ha)
  have hwritten := hopen.trans hbody
  have hend : (((p.expr cond).goto .jumpIfFalse otherStart).block around body).offset + 1 =
      otherStart := by rw [Program.offset_block, Program.offset_goto, hstart]
  generalize ((p.expr cond).goto .jumpIfFalse otherStart).block around body = q at *
  have hbetween := hwritten.goto .jump rfl (otherStart + Stmt.widths other)
  have hpatched := hbetween.patch (p.expr cond).offset otherStart
    ((q.offset, otherStart + Stmt.widths other) :: (Program.exits around sites ++ holes))
    fun x => by simp only [List.mem_append, List.mem_cons]; grind
  obtain ⟨sites', hother⟩ := hblock' hpatched.program (hpatched.knows ha)
  refine ⟨sites ++ sites', ?_⟩
  rw [hcond.program.offset, hwritten.program.offset, hbetween.program.offset, Program.offset_goto,
    hend, hother.program.offset, Program.offset_block, Program.offset_goto, hend]
  refine (hpatched.trans hother).patch _ _ _ fun x => ?_
  simp only [Program.exits_append, List.mem_append, List.mem_cons]
  grind

/-- Behind a loop, its own jump and all jumps out of its body are pointed to the same place. -/
theorem writes_while (around : Option Program.LoopBounds) (span : Span) (cond : Expr)
    {body : List Stmt} (hblock : ∀ bounds, WritesBlock (some bounds) body) :
    WritesStmt around (.whileStmt span cond body) := by
  intro d p holes h ha
  rw [Draft.stmt, Program.stmt]
  generalize hexit : (p.expr cond).offset + 1 + Stmt.widths body + 1 = exit
  have hcond := (Advances.refl h).expr cond
  have hopen := hcond.goto .jumpIfFalse rfl exit
  obtain ⟨sites, hbody⟩ := hblock ⟨p.offset, exit⟩ (hopen.inside (⟨p.offset, []⟩ :: d.loops)) rfl
  have hwritten := hopen.leave hbody
  have hloops : _ = ⟨p.offset, sites⟩ :: d.loops := hbody.loops
  refine ⟨[], ?_⟩
  rw [Program.exits_nil, h.offset]
  generalize (Draft.withLoops _ (⟨p.offset, []⟩ :: d.loops)).block body = written at *
  rw [hloops, List.tail_cons, List.headD_cons]
  have hleft := hwritten.write (f := (·.goto .jump p.offset)) (hwritten.program.push _)
  have hend := hleft.program.offset
  rw [(Program.adds_push _ _).offset, Program.offset_block, Program.offset_goto, hexit] at hend
  rw [hcond.program.offset, hend]
  refine (hleft.patch _ _ _ fun x => ?_).patchAll
  simp only [Program.exits, List.mem_append, List.mem_cons]
  grind

mutual

/-- Writing the code of a statement leaves only the jumps out of the loop around without targets. -/
theorem advances_stmt (around : Option Program.LoopBounds) : ∀ s : Stmt, WritesStmt around s
  | .letStmt _ name none =>
    writes_plain around (fun _ => by rw [Draft.stmt]) (fun _ => by rw [Program.stmt])
      fun h => (h.addVariable name).2
  | .letStmt _ name (some value) =>
    writes_plain around (fun _ => by rw [Draft.stmt]) (fun _ => by rw [Program.stmt])
      fun h => (h.expr value).storeVariable name
  | .fnStmt span name params body => writes_fn around span name params (advances_block none body)
  | .returnStmt _ none =>
    writes_plain around (fun _ => by rw [Draft.stmt]) (fun _ => by rw [Program.stmt])
      fun h => h.plain .ret
  | .returnStmt _ (some value) =>
    writes_plain around (fun _ => by rw [Draft.stmt]) (fun _ => by rw [Program.stmt])
      fun h => (h.expr value).plain .ret
  | .breakStmt span => writes_break around span
  | .continueStmt span => writes_continue around span
  | .ifStmt span cond body => writes_if around span cond (advances_block around body)
  | .ifElseStmt span cond body other =>
    writes_ifElse around span cond (advances_block around body) (advances_block around other)
  | .whileStmt span cond body =>
    writes_while around span cond fun bounds => advances_block (some bounds) body
  | .exprStmt _ value =>
    writes_plain around (fun _ => by rw [Draft.stmt]) (fun _ => by rw [Program.stmt])
      fun h => (h.expr value).plain .pop

/-- Writing the code of a block leaves only the jumps out of the loop around without targets. -/
theorem advances_block (around : Option Program.LoopBounds) : ∀ ss : List Stmt,
    WritesBlock around ss
  | [], d, p, holes, h, _ => by
    rw [Draft.block, Program.block]
    refine ⟨[], ?_⟩
    rw [Program.exits_nil]
    exact .refl h
  | s :: rest, d, p, holes, h, ha => by
    rw [Draft.block, Program.block]
    obtain ⟨sites, hs⟩ := advances_stmt around s h ha
    obtain ⟨sites', hrest⟩ := advances_block around rest hs.program (hs.knows ha)
    refine ⟨sites ++ sites', (hs.trans hrest).congr fun x => ?_⟩
    simp only [Program.exits_append, List.mem_append]
    grind

end

end Draft

/-- Writing a module to its end fills all holes. -/
theorem Module.drafted_advances (m : Module) :
    m.drafted.Advances ⟨Program.empty, [], []⟩ [] m.generate [] := by
  obtain ⟨sites, h⟩ := Draft.advances_block none m.body (d := ⟨Program.empty, [], []⟩)
    (.refl Program.empty) rfl
  exact ⟨h.program, h.loops, h.patched⟩

/-- The draft of a module comes to the program of the module: no jump is left without its target. -/
theorem Module.drafted_program (m : Module) : m.drafted.program = m.generate :=
  m.drafted_advances.program.eq

/-- Nothing but jumps is pointed to a target while a module is drafted. -/
theorem Module.drafted_patched (m : Module) :
    ∀ hit ∈ m.drafted.patched, ∃ op, hit = some op ∧ op.isJump = true := by
  intro hit hhit
  rcases m.drafted_advances.patched hit hhit with hnone | hjump
  · cases hnone
  · exact hjump

end Scriptlet
