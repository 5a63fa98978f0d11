import Scriptlet.Proofs.Checked

/-!
# Names and symbols mean the same

Evaluation by names and evaluation by symbols go along the same tree.  Where nothing is shadowed,
every step of a checked statement keeps variables and cells in agreement (`Stmt.execs_matches`), and
so does a call, whose variables and cells are its own (`Definition.run_matches`).
-/

namespace Scriptlet

/-! ## Answers -/

/-- An answer and what evaluation with cells comes to are the same: the same result where all
variables agree, or the same fault where what is outside calls agrees. -/
inductive Matches (m : Module) (own : Option (List Declared)) {α : Type} :
    Answer α → Option (Except Fault α × Cells) → Prop
  | done {a : α} {st : Store} {c : Cells} (h : Agrees m own st c) :
      Matches m own (.done a st) (some (.ok a, c))
  | fault {cause : Fault} {st : Store} {c : Cells} (h : Shares m st c) :
      Matches m own (.fault cause st) (some (.error cause, c))
  | unfinished : Matches m own .unfinished none

/-- Going on with a result. -/
theorem Matches.bind {m : Module} {own own' : Option (List Declared)} {α β : Type} {x : Answer α}
    {y : Eval α} {c : Cells} (h : Matches m own x (y c)) {f : α → Store → Answer β}
    {g : α → Eval β}
    (hnext : ∀ a st c, Agrees m own st c → Matches m own' (f a st) (g a c)) :
    Matches m own' (x.bind f) ((y >>= g) c) := by
  show Matches m own' (x.bind f) ((y c).bind fun p => ExceptT.bindCont g p.1 p.2)
  generalize y c = r at h
  cases h with
  | done h => exact hnext _ _ _ h
  | fault h => exact .fault h
  | unfinished => exact .unfinished

/-- The same can be seen of both. -/
theorem Matches.observation?_eq {m : Module} {own : Option (List Declared)} {α : Type}
    {x : Answer α} {y : Option (Except Fault α × Cells)} (h : Matches m own x y)
    {t : SymbolTable} (htable : t.declared = m.declarations) :
    x.observation? = Eval.observation? t y := by
  cases h with
  | done h => exact congrArg some (h.observe_eq htable none)
  | fault h => exact congrArg some (h.observe_eq htable _)
  | unfinished => rfl

/-- Calls of names and of symbols come to the same. -/
def CallsMatch (m : Module) (call : Caller) (cells : CellCaller) : Prop :=
  ∀ ⦃own : Option (List Declared)⦄ ⦃st : Store⦄ ⦃c : Cells⦄ ⦃d : Declaration⦄ (args : List Value),
    ⟨d, false⟩ ∈ m.declarations → d.kind ≠ .variable → Agrees m own st c →
      Matches m own (call d.name args st) (cells d.number args c)

/-- The names of a module are resolved, and nothing is shadowed. -/
structure Module.Clear (m : Module) (r : Resolution) : Prop where
  unshadowed : m.Unshadowed
  table : r.table.declared = m.declarations

/-- The same, with calls that come to the same. -/
structure Setting (m : Module) (r : Resolution) (call : Caller) (cells : CellCaller) : Prop
    extends m.Clear r where
  calls : CallsMatch m call cells

section Trees

variable {m : Module} {r : Resolution} {own : Option (List Declared)} {call : Caller}
  {cells : CellCaller}

/-! ## Expressions -/

mutual

/-- An expression has the same value by names and by symbols. -/
theorem Expr.eval_matches (hm : Setting m r call cells) {env : Environment}
    (hsees : m.Sees own env) : ∀ (e : Expr), r.Binds (env.expr e) →
    ∀ {st : Store} {c : Cells}, Agrees m own st c →
      Matches m own (e.eval call st) (e.evalCells r cells c)
  | .literal _ value, _, st, c, h => by
    rw [Expr.eval, Expr.evalCells]
    exact .done h
  | .name span id x, hb, st, c, h => by
    rw [Environment.expr] at hb
    obtain ⟨d, rfl, hd, hbound⟩ := hsees.named hb
    rw [Expr.eval, Expr.evalCells, hbound, h.read_eq hm.unshadowed hm.table hsees.owns hd]
    exact .done h
  | .binary _ op left right, hb, st, c, h => by
    rw [Environment.expr, Resolution.binds_append] at hb
    rw [Expr.eval, Expr.evalCells]
    refine (Expr.eval_matches hm hsees left hb.1 h).bind fun a st c h => ?_
    refine (Expr.eval_matches hm hsees right hb.2 h).bind fun b st c h => ?_
    cases op.apply a b with
    | ok v => exact .done h
    | error cause => exact .fault h.toShares
  | .not _ operand, hb, st, c, h => by
    rw [Environment.expr] at hb
    rw [Expr.eval, Expr.evalCells]
    exact (Expr.eval_matches hm hsees operand hb h).bind fun a st c h => .done h
  | .call span id f args, hb, st, c, h => by
    rw [Environment.expr, Resolution.binds_append] at hb
    obtain ⟨d, rfl, hd, hkind, hbound⟩ := hsees.callee hb.2
    rw [Expr.eval, Expr.evalCells]
    refine (Expr.evals_matches hm hsees args hb.1 h).bind fun vs st c h => ?_
    rw [hbound]
    exact hm.calls vs hd hkind h

theorem Expr.evals_matches (hm : Setting m r call cells) {env : Environment}
    (hsees : m.Sees own env) : ∀ (es : List Expr), r.Binds (env.exprs es) →
    ∀ {st : Store} {c : Cells}, Agrees m own st c →
      Matches m own (Expr.evals call es st) (Expr.evalsCells r cells es c)
  | [], _, st, c, h => by
    rw [Expr.evals, Expr.evalsCells]
    exact .done h
  | e :: rest, hb, st, c, h => by
    rw [Environment.exprs, Resolution.binds_append] at hb
    rw [Expr.evals, Expr.evalsCells]
    refine (Expr.eval_matches hm hsees e hb.1 h).bind fun v st c h => ?_
    exact (Expr.evals_matches hm hsees rest hb.2 h).bind fun vs st c h => .done h

end

/-! ## Statements -/

/-- A loop comes to the same if its test and its body do. -/
theorem repeatWhile_matches {test : Store → Answer Value} {testCells : Eval Value}
    {body : Store → Answer Flow} {bodyCells : Eval Flow}
    (htest : ∀ {st : Store} {c : Cells}, Agrees m own st c → Matches m own (test st) (testCells c))
    (hbody : ∀ {st : Store} {c : Cells}, Agrees m own st c →
      Matches m own (body st) (bodyCells c)) (rounds : Nat) :
    ∀ {st : Store} {c : Cells}, Agrees m own st c →
      Matches m own (repeatWhile test body rounds st)
        (repeatCells testCells bodyCells rounds c) := by
  induction rounds with
  | zero => exact fun _ => .unfinished
  | succ rounds ih =>
    intro st c h
    rw [repeatWhile, repeatCells]
    refine (htest h).bind fun v st c h => ?_
    cases v.isTruthy with
    | false => exact .done h
    | true =>
      refine (hbody h).bind fun flow st c h => ?_
      cases flow with
      | next => exact ih h
      | leave => exact .done h
      | again => exact ih h
      | returned value => exact .done h

mutual

/-- A checked statement does the same by names and by symbols. -/
theorem Stmt.exec_matches (hm : Setting m r call cells) (rounds : Nat) : ∀ (s : Stmt)
    {env : Environment} {around : Surroundings} (inLoop : Bool), m.Checks r own env around s →
    ∀ {st : Store} {c : Cells}, Agrees m own st c →
      Matches m own (s.exec call rounds inLoop st) (s.execCells r cells rounds inLoop env.made c)
  | .letStmt span x value, env, around, inLoop, hs, st, c, h => by
    obtain ⟨e, rfl, hb, hmem⟩ := hs.letStmt
    rw [Stmt.exec, Stmt.execCells]
    refine (Expr.eval_matches hm hs.sees e hb h).bind fun v st c h => ?_
    exact .done (h.write hm.unshadowed hm.table hs.sees.owns hmem rfl rfl v)
  | .fnStmt _ _ _ _, env, around, inLoop, hs, st, c, h => by
    rw [Stmt.exec, Stmt.execCells]
    exact .done h
  | .returnStmt _ none, env, around, inLoop, hs, st, c, h => by
    rw [Stmt.exec, Stmt.execCells]
    exact .done h
  | .returnStmt _ (some value), env, around, inLoop, hs, st, c, h => by
    have hb := hs.binds
    rw [Environment.stmt, Resolution.binds_append] at hb
    rw [Stmt.exec, Stmt.execCells]
    exact (Expr.eval_matches hm hs.sees value hb.2 h).bind fun v st c h => .done h
  | .breakStmt _, env, around, inLoop, hs, st, c, h => by
    rw [Stmt.exec, Stmt.execCells]
    exact .done h
  | .continueStmt _, env, around, inLoop, hs, st, c, h => by
    rw [Stmt.exec, Stmt.execCells]
    exact .done h
  | .ifStmt _ cond body, env, around, inLoop, hs, st, c, h => by
    obtain ⟨hcond, hbody⟩ := hs.ifStmt
    rw [Stmt.exec, Stmt.execCells]
    refine (Expr.eval_matches hm hs.sees cond hcond h).bind fun v st c h => ?_
    cases v.isTruthy with
    | false => exact .done h
    | true => exact Stmt.execs_matches hm rounds body inLoop hbody h
  | .ifElseStmt _ cond body other, env, around, inLoop, hs, st, c, h => by
    obtain ⟨hcond, hbody, env', hmade, hother⟩ := hs.ifElseStmt
    -- The numbers of the second block go on behind those of the first.
    rw [Stmt.exec, Stmt.execCells, ← hmade]
    refine (Expr.eval_matches hm hs.sees cond hcond h).bind fun v st c h => ?_
    cases v.isTruthy with
    | false => exact Stmt.execs_matches hm rounds other inLoop hother h
    | true => exact Stmt.execs_matches hm rounds body inLoop hbody h
  | .whileStmt _ cond body, env, around, inLoop, hs, st, c, h => by
    obtain ⟨hcond, hbody⟩ := hs.whileStmt
    rw [Stmt.exec, Stmt.execCells]
    -- Both loops go round as often, since the condition has the same value each time.
    exact repeatWhile_matches (Expr.eval_matches hm hs.sees cond hcond)
      (Stmt.execs_matches hm rounds body true hbody) rounds h
  | .exprStmt _ value, env, around, inLoop, hs, st, c, h => by
    have hb := hs.binds
    rw [Environment.stmt] at hb
    rw [Stmt.exec, Stmt.execCells]
    exact (Expr.eval_matches hm hs.sees value hb h).bind fun v st c h => .done h

/-- Checked statements do the same by names and by symbols. -/
theorem Stmt.execs_matches (hm : Setting m r call cells) (rounds : Nat) : ∀ (ss : List Stmt)
    {env : Environment} {around : Surroundings} (inLoop : Bool), m.ChecksAll r own env around ss →
    ∀ {st : Store} {c : Cells}, Agrees m own st c →
      Matches m own (Stmt.execs call rounds inLoop ss st)
        (Stmt.execsCells r cells rounds inLoop env.made ss c)
  | [], env, around, inLoop, _, st, c, h => by
    rw [Stmt.execs, Stmt.execsCells]
    exact .done h
  | s :: rest, env, around, inLoop, hss, st, c, h => by
    obtain ⟨hs, env', hmade, hrest⟩ := hss.cons
    rw [Stmt.execs, Stmt.execsCells, ← hmade]
    refine (Stmt.exec_matches hm rounds s inLoop hs h).bind fun flow st c h => ?_
    cases flow with
    | next => exact Stmt.execs_matches hm rounds rest inLoop hrest h
    | leave => exact .done h
    | again => exact .done h
    | returned value => exact .done h

end

/-! ## Calls -/

/-- A call with variables of its own and one with cells of its own come to the same. -/
theorem Definition.run_matches (hm : Setting m r call cells) {f : Nat × Definition}
    (hf : m.Prepared r f) (rounds : Nat) (args : List Value) {st : Store} {c : Cells}
    (h : Agrees m own st c) :
    Matches m own (f.2.run call rounds args st) (f.2.runCells r cells rounds f.1 args c) := by
  obtain ⟨span, env, hmade, hbody⟩ := hf
  have hes := hbody.sees.owns _ rfl
  have hentered : Agrees m (some (f.2.declarations span f.1))
      { st with locals := some (bindAll f.2.params args .empty) }
      { c with own := some (bindCells (f.1 + 1) f.2.params args .empty) } :=
    { h with
      own := ⟨_, _, rfl, rfl, .bindAll hes.apart f.2.params _ args (.empty _)
        (List.subset_append_left ..)⟩ }
  rw [Definition.run]
  show Matches m own _ ((Stmt.execsCells r cells rounds false (f.1 + 1 + f.2.params.length) f.2.body
    >>= fun flow => _) { c with own := some (bindCells (f.1 + 1) f.2.params args .empty) })
  rw [← hmade]
  refine (Stmt.execs_matches hm rounds f.2.body false hbody hentered).bind
    fun flow after c' h' => ?_
  exact .done { h' with own := h.own }

end Trees

end Scriptlet
