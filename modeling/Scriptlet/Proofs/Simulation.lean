import Scriptlet.Proofs.Placement
import Scriptlet.Proofs.Runs

/-!
# The machine follows expressions and statements

The machine carries out the code of a tree exactly as the tree is evaluated: from the offset where
the code of an expression stands it comes to the offset behind it with the value on top of the
stack, it fails where evaluation fails, and it goes on for at least as many turns as evaluation was
given rounds and nested calls without an answer.  How calls are followed is left open here.
-/

namespace Scriptlet

/-! ## What the machine and the tree share -/

/-- The store that the machine stands for. -/
def State.store (s : State) : Store :=
  ⟨s.frames.head?.map Frame.locals, s.globals, s.printed, s.screen, s.input⟩

/-- What a statement leaves alone of the active calls: everything but the variables of the innermost
one. -/
def State.context (s : State) : Option (Nat × Nat) × List Frame :=
  (s.frames.head?.map fun f => (f.returnTo, f.base), s.frames.tail)

namespace State

@[simp] theorem store_begun (s : State) : s.begun.store = s.store := rfl

/-- The machine reads a variable as the meaning does: in the active call first, and then outside of
all calls. -/
theorem getVariable_eq_read (s : State) (name : String) :
    s.getVariable name = s.store.read name := by
  cases hf : s.frames with
  | nil => simp [getVariable, Store.read, store, hf]
  | cons f fs => cases hl : f.locals.find? name <;> simp [getVariable, Store.read, store, hf, hl]

/-- The machine writes a variable as the meaning does. -/
theorem store_setVariable (s : State) (name : String) (v : Value) :
    (s.setVariable name v).store = s.store.write name v := by
  cases hf : s.frames <;> simp [setVariable, Store.write, store, hf]

/-- Writing a variable changes neither the callers nor where the active call returns to. -/
theorem context_setVariable (s : State) (name : String) (v : Value) :
    (s.setVariable name v).context = s.context := by
  cases hf : s.frames <;> simp [setVariable, context, hf]

@[simp] theorem ip_setVariable (s : State) (name : String) (v : Value) :
    (s.setVariable name v).ip = s.ip := by
  unfold setVariable; split <;> rfl

@[simp] theorem stack_setVariable (s : State) (name : String) (v : Value) :
    (s.setVariable name v).stack = s.stack := by
  unfold setVariable; split <;> rfl

end State

/-- The context is a part of the active calls. -/
theorem State.context_congr {s s' : State} (h : s'.frames = s.frames) : s'.context = s.context := by
  rw [State.context, State.context, h]

theorem State.length_frames_of_context {s s' : State} (h : s'.context = s.context) :
    s'.frames.length = s.frames.length := by
  cases hf : s.frames <;> cases hf' : s'.frames <;> simp_all [State.context]

theorem State.frames_eq_nil_of_context {s s' : State} (h : s'.context = s.context)
    (hf : s.frames = []) : s'.frames = [] := by
  rw [← List.length_eq_zero_iff, State.length_frames_of_context h, hf, List.length_nil]

/-- The innermost call is the same apart from its variables. -/
theorem State.frames_of_context {s s' : State} {frame : Frame} {frames : List Frame}
    (h : s'.context = s.context) (hf : s.frames = frame :: frames) :
    ∃ vars, s'.frames = ⟨frame.returnTo, vars, frame.base⟩ :: frames := by
  cases hf' : s'.frames with
  | nil => simp [State.context, hf, hf'] at h
  | cons frame' frames' =>
    simp only [State.context, hf, hf', List.head?_cons, Option.map_some, List.tail_cons,
      Prod.mk.injEq, Option.some.injEq] at h
    obtain ⟨⟨hret, hbase⟩, rfl⟩ := h
    exact ⟨frame'.locals, by rw [← hret, ← hbase]⟩

/-- Binding parameters one after the other gives the variables with which a call starts. -/
theorem bindParameters_eq_bindAll (params : List String) (args : List Value) :
    State.bindParameters params args = bindAll params args .empty := by
  have h : ∀ (ps : List String) (k : Nat) (vars : Variables),
      ((ps.zipIdx k).map fun e => (e.1, args.getD e.2 .null)).foldl
        (fun m e => m.insert e.1 e.2) vars = bindAll ps (args.drop k) vars := by
    intro ps
    induction ps with
    | nil => intro k vars; rfl
    | cons param ps ih =>
      intro k vars
      rw [List.zipIdx_cons, List.map_cons, List.foldl_cons, ih, bindAll, List.tail_drop]
      congr 2
      rw [List.headD_eq_head?_getD, List.head?_drop]
      exact List.getD_eq_getElem?_getD
  exact h params 0 .empty

/-! ## The machine gives an answer -/

theorem Answer.bind_done {α : Type} (r : Answer α) : (r.bind fun a st => .done a st) = r := by
  cases r <;> rfl

/-- From a state the machine comes to a given answer: to a state with its store that satisfies a
condition, or to its fault; without an answer it goes on for at least `k` turns. -/
def Program.Gives (p : Program) (echo : Bool) {α : Type} (s : State) (k : Nat)
    (post : α → State → Prop) : Answer α → Prop
  | .done a st => ∃ n s', p.runFor ⟨echo, none⟩ n s = .next s' ∧ s'.store = st ∧ post a s'
  | .fault cause st =>
    ∃ n r s', p.runFor ⟨echo, none⟩ n s = .failed r s' ∧ r.fault = cause ∧ s'.store = st
  | .unfinished => ∃ s', p.runFor ⟨echo, none⟩ k s = .next s'

namespace Program.Gives

variable {p : Program} {echo : Bool} {α β : Type} {s s' : State} {k : Nat}
  {post post' : α → State → Prop}

/-- The machine is where it has to be. -/
theorem here {a : α} (h : post a s) : p.Gives echo s k post (.done a s.store) :=
  ⟨0, s, rfl, rfl, h⟩

/-- What is known of the end of a run can be weakened. -/
theorem imp {r : Answer α} (h : p.Gives echo s k post r) (hpost : ∀ a s', post a s' → post' a s') :
    p.Gives echo s k post' r := by
  cases r with
  | done a st =>
    obtain ⟨n, s', hrun, hst, ha⟩ := h
    exact ⟨n, s', hrun, hst, hpost a s' ha⟩
  | fault cause st => exact h
  | unfinished => exact h

/-- The answer that the machine comes to is known where it has come to it. -/
theorem self {r : Answer α} (h : p.Gives echo s k post r) :
    p.Gives echo s k (fun a s' => post a s' ∧ r = .done a s'.store) r := by
  cases r with
  | done a st =>
    obtain ⟨n, s', hrun, rfl, ha⟩ := h
    exact ⟨n, s', hrun, rfl, ha, rfl⟩
  | fault cause st => exact h
  | unfinished => exact h

/-- A run that is followed for some turns is followed for fewer. -/
theorem mono {j : Nat} {r : Answer α} (h : p.Gives echo s k post r) (hjk : j ≤ k) :
    p.Gives echo s j post r := by
  cases r with
  | done a st => exact h
  | fault cause st => exact h
  | unfinished =>
    obtain ⟨s', hrun⟩ := h
    exact exists_runFor_of_le hrun hjk

/-- A run can be put in front of an answer; its turns count. -/
theorem after {n : Nat} {r : Answer α} (hrun : p.runFor ⟨echo, none⟩ n s = .next s')
    (h : p.Gives echo s' k post r) : p.Gives echo s (n + k) post r := by
  cases r with
  | done a st =>
    obtain ⟨m, s'', hm, hst, ha⟩ := h
    exact ⟨n + m, s'', by rw [runFor_add hrun, hm], hst, ha⟩
  | fault cause st =>
    obtain ⟨m, r, s'', hm, hr, hst⟩ := h
    exact ⟨n + m, r, s'', by rw [runFor_add hrun, hm], hr, hst⟩
  | unfinished =>
    obtain ⟨s'', hk⟩ := h
    exact ⟨s'', by rw [runFor_add hrun, hk]⟩

/-- A turn can be put in front of an answer. -/
theorem turn {r : Answer α} (hturn : p.turn ⟨echo, none⟩ s = .next s')
    (h : p.Gives echo s' k post r) : p.Gives echo s (k + 1) post r := by
  have hrun : p.runFor ⟨echo, none⟩ 1 s = .next s' := runFor_succ_of_turn hturn 0
  rw [Nat.add_comm]
  exact h.after hrun

/-- A turn that fails gives the fault. -/
theorem failed {r : RuntimeFault} {cause : Fault} {st : Store}
    (hturn : p.turn ⟨echo, none⟩ s = .failed r s') (hr : r.fault = cause) (hst : s'.store = st) :
    p.Gives echo s k post (.fault cause st) := by
  refine ⟨1, r, s', ?_, hr, hst⟩
  rw [runFor_succ_of_ended (by rw [hturn]; rintro ⟨t, ht⟩; cases ht), hturn]

/-- The machine gives one answer and then, from where it is, the next. -/
theorem bind {post' : β → State → Prop} {r : Answer α} {f : α → Store → Answer β}
    (h : p.Gives echo s k post r)
    (hf : ∀ a s', post a s' → p.Gives echo s' k post' (f a s'.store)) :
    p.Gives echo s k post' (r.bind f) := by
  cases r with
  | done a st =>
    obtain ⟨n, s', hrun, rfl, ha⟩ := h
    exact ((hf a s' ha).after hrun).mono (by omega)
  | fault cause st => exact h
  | unfinished => exact h

end Program.Gives

/-! ## Single instructions -/

/-- Where the machine stands: at an offset, with a given stack and given active calls. -/
structure State.Stands (s : State) (ip : Nat) (stack : List Value) (frames : List Frame) :
    Prop where
  ip : s.ip = ip
  stack : s.stack = stack
  frames : s.frames = frames

namespace Program

variable {p : Program} {echo : Bool} {s : State}

/-- A literal is put on the stack. -/
theorem turn_loadConst {value : Literal} (h : p.LoadsAt Eq value s.ip) :
    p.turn ⟨echo, none⟩ s = .next (s.begun.push (.ofLiteral value)) := by
  obtain ⟨k, found, hcode, hconst, rfl⟩ := h
  simp only [turn_of_code hcode, execute, withConstant, hconst]

/-- The value of a variable is put on the stack. -/
theorem turn_loadVar {x : String} (h : p.VariableAt .loadVar x s.ip) :
    p.turn ⟨echo, none⟩ s = .next (s.begun.push (s.store.read x)) := by
  obtain ⟨k, hcode, hname⟩ := h
  simp only [turn_of_code hcode, execute, withVariable, hname, State.getVariable_eq_read,
    State.store_begun]

/-- The value on the stack is written to a variable. -/
theorem turn_storeVar {x : String} (h : p.VariableAt .storeVar x s.ip) {v : Value}
    {rest : List Value} (hs : s.stack = v :: rest) :
    p.turn ⟨echo, none⟩ s = .next ({ s.begun with stack := rest }.setVariable x v) := by
  obtain ⟨k, hcode, hname⟩ := h
  have hb : s.begun.stack = v :: rest := hs
  simp only [turn_of_code hcode, execute, withVariable, hname, State.withTop, hb]

/-- The machine applies an operation of the language to the two topmost values. -/
theorem execute_binary (op : BinaryOp) {x : Instruction} (hx : x.op = op.opcode) (s : State) :
    p.execute echo x s = s.binary op.apply := by
  rw [execute, hx]
  cases op <;> rfl

/-- An operation takes its second operand off the stack first, and puts its result there or
fails. -/
theorem turn_binary {op : BinaryOp} (h : p.PlainAt op.opcode s.ip) {a b : Value}
    {rest : List Value} (hs : s.stack = b :: a :: rest) :
    p.turn ⟨echo, none⟩ s =
      match op.apply a b with
      | .ok v => .next { s.begun with stack := v :: rest }
      | .error cause =>
        .failed ⟨cause, some ⟨s.ip, op.opcode.name⟩⟩ { s.begun with stack := rest } := by
  have hb : s.begun.stack = b :: a :: rest := hs
  rw [turn_of_code h, execute_binary op rfl]
  simp only [State.binary, hb]
  cases op.apply a b <;> rfl

/-- A negation replaces the value on the stack. -/
theorem turn_not (h : p.PlainAt .not s.ip) {v : Value} {rest : List Value}
    (hs : s.stack = v :: rest) :
    p.turn ⟨echo, none⟩ s = .next { s.begun with stack := .bool (!v.isTruthy) :: rest } := by
  have hb : s.begun.stack = v :: rest := hs
  simp only [turn_of_code h, execute, State.withTop, hb]
  rfl

/-- The value on the stack is dropped. -/
theorem turn_pop (h : p.PlainAt .pop s.ip) {v : Value} {rest : List Value}
    (hs : s.stack = v :: rest) : p.turn ⟨echo, none⟩ s = .next { s.begun with stack := rest } := by
  have hb : s.begun.stack = v :: rest := hs
  simp only [turn_of_code h, execute, State.withTop, hb]

theorem turn_nop (h : p.PlainAt .nop s.ip) : p.turn ⟨echo, none⟩ s = .next s.begun := by
  simp only [turn_of_code h, execute]

/-- A jump goes to its target, which may be the end of the code. -/
theorem turn_jump {target : Nat} (h : p.GotoAt .jump target s.ip) (ht : target ≤ p.code.size) :
    p.turn ⟨echo, none⟩ s = .next { s.begun with ip := target } := by
  simp only [turn_of_code h, execute, withTarget, if_neg (Nat.not_lt.mpr ht)]

/-- A conditional jump takes the value off the stack and goes on behind itself if it is truthy. -/
theorem turn_jumpIfFalse {target : Nat} (h : p.GotoAt .jumpIfFalse target s.ip)
    (ht : target ≤ p.code.size) {v : Value} {rest : List Value} (hs : s.stack = v :: rest) :
    p.turn ⟨echo, none⟩ s =
      .next { s.begun with stack := rest, ip := if v.isTruthy then s.ip + 1 else target } := by
  have hb : s.begun.stack = v :: rest := hs
  simp only [turn_of_code h, execute, withTarget, if_neg (Nat.not_lt.mpr ht), State.withTop, hb]
  cases v.isTruthy <;> rfl

/-- The machine carries out a built-in function as it is evaluated. -/
theorem callBuiltin_eq (echo : Bool) (b : Builtin) (args : List Value) (s : State) :
    (s.callBuiltin echo args b).store = (s.store.builtin echo args b).2 ∧
      (s.callBuiltin echo args b).Stands s.ip
        ((s.store.builtin echo args b).1 :: s.stack) s.frames := by
  cases b with
  | print => cases echo <;> exact ⟨rfl, rfl, rfl, rfl⟩
  | input => cases args <;> exact ⟨rfl, rfl, rfl, rfl⟩

end Program

/-! ## Expressions -/

/-- A way to evaluate calls that the machine follows at every call instruction, for at least `k`
turns if there is no answer. -/
def Program.Follows (p : Program) (echo : Bool) (k : Nat) (call : Caller) : Prop :=
  ∀ (s : State) (f : String) (args rest : List Value),
    p.CallAt f args.length s.ip → s.stack = args.reverse ++ rest →
      p.Gives echo s k (fun v s' => s'.Stands (s.ip + 1) (v :: rest) s.frames) (call f args s.store)

section Expressions

variable {p : Program} {echo : Bool} {k : Nat} {call : Caller}

mutual

/-- The code of an expression leaves its value on the stack. -/
theorem Expr.gives (hcall : p.Follows echo k call) : ∀ (e : Expr) (s : State), e.At p Eq s.ip →
    p.Gives echo s k (fun v s' => s'.Stands (s.ip + e.width) (v :: s.stack) s.frames)
      (e.eval call s.store)
  | .literal _ value, s, h => by
    rw [Expr.At] at h
    rw [Expr.eval]
    exact (Program.Gives.turn (Program.turn_loadConst h) (.here ⟨rfl, rfl, rfl⟩)).mono
      (Nat.le_succ k)
  | .name _ _ x, s, h => by
    rw [Expr.At] at h
    rw [Expr.eval]
    exact (Program.Gives.turn (Program.turn_loadVar h) (.here ⟨rfl, rfl, rfl⟩)).mono
      (Nat.le_succ k)
  | .binary _ op left right, s, h => by
    rw [Expr.At] at h
    obtain ⟨hl, hr, hop⟩ := h
    rw [Expr.eval]
    refine (Expr.gives hcall left s hl).bind fun a s₁ h₁ => ?_
    rw [← h₁.ip] at hr hop
    refine (Expr.gives hcall right s₁ hr).bind fun b s₂ h₂ => ?_
    rw [← h₂.ip] at hop
    -- The right operand was computed last, so it is on top.
    have hstack : s₂.stack = b :: a :: s.stack := by rw [h₂.stack, h₁.stack]
    have hturn : p.turn ⟨echo, none⟩ s₂ = _ := Program.turn_binary hop hstack
    cases happly : op.apply a b with
    | ok v =>
      rw [happly] at hturn
      refine (Program.Gives.turn hturn (.here ⟨?_, rfl, ?_⟩)).mono (Nat.le_succ k)
      · show s₂.ip + 1 = _
        rw [h₂.ip, h₁.ip, Expr.width]
        omega
      · exact h₂.frames.trans h₁.frames
    | error cause =>
      rw [happly] at hturn
      exact .failed hturn rfl rfl
  | .not _ operand, s, h => by
    rw [Expr.At] at h
    rw [Expr.eval]
    refine (Expr.gives hcall operand s h.1).bind fun v s₁ h₁ => ?_
    have hop := h.2
    rw [← h₁.ip] at hop
    refine (Program.Gives.turn (Program.turn_not hop h₁.stack) (.here ⟨?_, rfl, h₁.frames⟩)).mono
      (Nat.le_succ k)
    show s₁.ip + 1 = _
    rw [h₁.ip, Expr.width]
    omega
  | .call _ _ f args, s, h => by
    rw [Expr.At] at h
    rw [Expr.eval]
    refine (Expr.gives_all hcall args s h.1).bind fun vs s₁ h₁ => ?_
    -- The arguments are on the stack, as many as the call asks for.
    have hat := h.2
    rw [← h₁.1.ip, ← h₁.2] at hat
    refine (hcall s₁ f vs s.stack hat h₁.1.stack).imp fun v s₂ h₂ => ⟨?_, h₂.stack, ?_⟩
    · rw [h₂.ip, h₁.1.ip, Expr.width]
      omega
    · exact h₂.frames.trans h₁.1.frames

/-- The code of some expressions leaves their values on the stack, the last one on top. -/
theorem Expr.gives_all (hcall : p.Follows echo k call) : ∀ (es : List Expr) (s : State),
    Expr.AllAt p Eq es s.ip →
    p.Gives echo s k (fun vs s' =>
        s'.Stands (s.ip + Expr.widths es) (vs.reverse ++ s.stack) s.frames ∧ vs.length = es.length)
      (Expr.evals call es s.store)
  | [], s, _ => by
    rw [Expr.evals]
    exact .here ⟨⟨rfl, rfl, rfl⟩, rfl⟩
  | e :: rest, s, h => by
    rw [Expr.AllAt] at h
    obtain ⟨he, hrest⟩ := h
    rw [Expr.evals]
    refine (Expr.gives hcall e s he).bind fun v s₁ h₁ => ?_
    rw [← h₁.ip] at hrest
    refine (Expr.gives_all hcall rest s₁ hrest).bind fun vs s₂ h₂ => .here ⟨⟨?_, ?_, ?_⟩, ?_⟩
    · rw [h₂.1.ip, h₁.ip, Expr.widths]
      omega
    · rw [h₂.1.stack, h₁.stack, List.reverse_cons, List.append_assoc, List.singleton_append]
    · exact h₂.1.frames.trans h₁.frames
    · rw [List.length_cons, List.length_cons, h₂.2]

end

end Expressions

/-! ## Statements -/

/-- Where the machine is when the code of a statement has been carried out: behind it, at the exit
or at the start of the loop around it, or at an instruction that returns with the value of the
statement.  The stack is as before but for that value. -/
def Program.Went (p : Program) (around : Option Program.LoopBounds) (s : State) (finish : Nat)
    (flow : Flow) (s' : State) : Prop :=
  s'.context = s.context ∧
    match flow with
    | .next => s'.ip = finish ∧ s'.stack = s.stack
    | .leave => (∃ l, around = some l ∧ s'.ip = l.exit) ∧ s'.stack = s.stack
    | .again => (∃ l, around = some l ∧ s'.ip = l.start) ∧ s'.stack = s.stack
    | .returned v =>
      p.PlainAt .ret s'.ip ∧ (s'.stack = v :: s.stack ∨ v = .null ∧ s'.stack = s.stack)

/-- Only the stack and the active calls at the start matter. -/
theorem Program.Went.of_eq {p : Program} {around : Option Program.LoopBounds} {s s₁ s' : State}
    {finish : Nat} {flow : Flow} (h : p.Went around s₁ finish flow s')
    (hcontext : s₁.context = s.context) (hstack : s₁.stack = s.stack) :
    p.Went around s finish flow s' := by
  unfold Went at h ⊢
  rwa [hcontext, hstack] at h

section Statements

variable {p : Program} {echo : Bool} {k : Nat} {call : Caller}

/-- Behind the code of a condition its value is taken off the stack and decides where to go on. -/
theorem Program.Gives.branch {s s₁ : State} {a target finish : Nat} {v : Value}
    {around : Option Program.LoopBounds} {r : Answer Flow}
    (h₁ : s₁.Stands a (v :: s.stack) s.frames) (hjump : p.GotoAt .jumpIfFalse target a)
    (ht : target ≤ p.code.size)
    (hnext : ∀ s₂ : State, s₂.ip = (if v.isTruthy then a + 1 else target) →
      s₂.store = s₁.store → p.Gives echo s₂ k (p.Went around s₂ finish) r) :
    p.Gives echo s₁ (k + 1) (p.Went around s finish) r := by
  have hip := h₁.ip
  subst hip
  refine .turn (Program.turn_jumpIfFalse hjump ht h₁.stack) ?_
  refine (hnext { s₁.begun with
    stack := s.stack, ip := if v.isTruthy then s₁.ip + 1 else target } rfl rfl).imp ?_
  intro flow s' h
  exact h.of_eq (State.context_congr h₁.frames) rfl

/-- The machine follows a loop, given that it follows the condition and the body. -/
theorem repeatWhile_gives {test : Store → Answer Value} {body : Store → Answer Flow}
    {around : Option Program.LoopBounds} {a w width : Nat}
    (htest : ∀ s : State, s.ip = a →
      p.Gives echo s k (fun v s' => s'.Stands (s.ip + w) (v :: s.stack) s.frames) (test s.store))
    (hbody : ∀ s : State, s.ip = a + w + 1 →
      p.Gives echo s k (p.Went (some ⟨a, a + w + 1 + width + 1⟩) s (a + w + 1 + width))
        (body s.store))
    (hjump : p.GotoAt .jumpIfFalse (a + w + 1 + width + 1) (a + w))
    (hback : p.GotoAt .jump a (a + w + 1 + width)) :
    ∀ (rounds : Nat), rounds ≤ k → ∀ s : State, s.ip = a →
      p.Gives echo s rounds (p.Went around s (a + w + 1 + width + 1))
        (repeatWhile test body rounds s.store) := by
  have hexit : a + w + 1 + width + 1 ≤ p.code.size := Program.lt_size_of_code hback
  intro rounds
  -- Each round is paid for by the turn at the conditional jump.
  induction rounds with
  | zero => intro _ s _; exact ⟨s, rfl⟩
  | succ rounds ih =>
    intro hk s hs
    rw [repeatWhile]
    refine ((htest s hs).mono hk).bind fun v s₁ h₁ => ?_
    rw [hs] at h₁
    refine .branch h₁ hjump hexit fun s₂ hip hstore => ?_
    rw [← hstore]
    by_cases hv : v.isTruthy = true
    · rw [if_pos hv] at hip ⊢
      refine ((hbody s₂ hip).mono (by omega)).bind fun flow s₃ h₃ => ?_
      cases flow with
      | next =>
        -- The body is carried out to its end, and the jump behind it leads back to the condition.
        obtain ⟨hc₃, hip₃, hst₃⟩ := h₃
        rw [← hip₃] at hback
        have hagain := ih (by omega) ({ s₃.begun with ip := a } : State) rfl
        have hround := Program.Gives.turn (Program.turn_jump hback (by omega)) hagain
        exact (hround.mono (Nat.le_succ rounds)).imp fun flow s' h => h.of_eq hc₃ hst₃
      | leave =>
        obtain ⟨hc₃, ⟨l, hl, hip₃⟩, hst₃⟩ := h₃
        cases hl
        exact .here ⟨hc₃, hip₃, hst₃⟩
      | again =>
        obtain ⟨hc₃, ⟨l, hl, hip₃⟩, hst₃⟩ := h₃
        cases hl
        exact (ih (by omega) s₃ hip₃).imp fun flow s' h => h.of_eq hc₃ hst₃
      | returned value => exact .here ⟨h₃.1, h₃.2⟩
    · rw [if_neg hv] at hip ⊢
      exact .here ⟨rfl, hip, rfl⟩

/-- The machine follows the code of a statement wherever that stands inside of a program. -/
def Stmt.Followed (p : Program) (echo : Bool) (k : Nat) (call : Caller)
    (around : Option Program.LoopBounds) (st : Stmt) : Prop :=
  ∀ s : State, st.At p Eq around s.ip → s.ip + st.width ≤ p.code.size →
    p.Gives echo s k (p.Went around s (s.ip + st.width)) (st.exec call k around.isSome s.store)

/-- The machine follows the code of a block wherever that stands inside of a program. -/
def Stmt.FollowedAll (p : Program) (echo : Bool) (k : Nat) (call : Caller)
    (around : Option Program.LoopBounds) (ss : List Stmt) : Prop :=
  ∀ s : State, Stmt.AllAt p Eq around ss s.ip → s.ip + Stmt.widths ss ≤ p.code.size →
    p.Gives echo s k (p.Went around s (s.ip + Stmt.widths ss))
      (Stmt.execs call k around.isSome ss s.store)

namespace Stmt

/-- A declaration stores the value that stands on the stack. -/
theorem followed_let (hcall : p.Follows echo k call) (around : Option Program.LoopBounds)
    (span : Span) (x : String) (value : Expr) :
    Followed p echo k call around (.letStmt span x (some value)) := by
  intro s h _
  rw [Stmt.At] at h
  rw [Stmt.exec, Stmt.width]
  refine (Expr.gives hcall value s h.1).bind fun v s₁ h₁ => ?_
  have hstore := h.2
  rw [← h₁.ip] at hstore
  have hturn : p.turn ⟨echo, none⟩ s₁ = _ := Program.turn_storeVar hstore h₁.stack
  have hst : ({ s₁.begun with stack := s.stack } : State).store = s₁.store := rfl
  rw [← hst, ← State.store_setVariable]
  refine (Program.Gives.turn hturn (.here ⟨?_, ?_, ?_⟩)).mono (Nat.le_succ k)
  · rw [State.context_setVariable]
    exact State.context_congr h₁.frames
  · rw [State.ip_setVariable]
    show s₁.ip + 1 = _
    rw [h₁.ip, Nat.add_assoc]
  · rw [State.stack_setVariable]

/-- The machine jumps over the body of a function. -/
theorem followed_fn (around : Option Program.LoopBounds) (span : Span) (name : String)
    (params : List String) (body : Block) :
    Followed p echo k call around (.fnStmt span name params body) := by
  intro s h hfit
  rw [Stmt.At] at h
  rw [Stmt.exec]
  rw [Stmt.width] at hfit ⊢
  have hturn : p.turn ⟨echo, none⟩ s = _ := Program.turn_jump h.1 (by omega)
  refine (Program.Gives.turn hturn (.here ⟨rfl, ?_, rfl⟩)).mono (Nat.le_succ k)
  show s.ip + 1 + Stmt.widths body + _ = _
  omega

/-- The machine stops in front of a return, which is the caller's to carry out. -/
theorem followed_return (hcall : p.Follows echo k call) (around : Option Program.LoopBounds)
    (span : Span) (value : Expr) :
    Followed p echo k call around (.returnStmt span (some value)) := by
  intro s h _
  rw [Stmt.At] at h
  rw [Stmt.exec]
  refine (Expr.gives hcall value s h.1).bind fun v s₁ h₁ => .here ?_
  have hret := h.2
  rw [← h₁.ip] at hret
  exact ⟨State.context_congr h₁.frames, hret, .inl h₁.stack⟩

/-- A break goes to the exit of the loop around it, and outside of loops to what follows. -/
theorem followed_break {around : Option Program.LoopBounds}
    (hexit : ∀ l, around = some l → l.exit ≤ p.code.size) (span : Span) :
    Followed p echo k call around (.breakStmt span) := by
  intro s h _
  rw [Stmt.exec]
  cases around with
  | none =>
    rw [Stmt.At] at h
    exact (Program.Gives.turn (Program.turn_nop h) (.here ⟨rfl, rfl, rfl⟩)).mono (Nat.le_succ k)
  | some l =>
    rw [Stmt.At] at h
    exact (Program.Gives.turn (Program.turn_jump h (hexit l rfl))
      (.here ⟨rfl, ⟨l, rfl, rfl⟩, rfl⟩)).mono (Nat.le_succ k)

/-- A continue goes to the start of the loop around it, and outside of loops to what follows. -/
theorem followed_continue {around : Option Program.LoopBounds}
    (hstart : ∀ l, around = some l → l.start ≤ p.code.size) (span : Span) :
    Followed p echo k call around (.continueStmt span) := by
  intro s h _
  rw [Stmt.exec]
  cases around with
  | none =>
    rw [Stmt.At] at h
    exact (Program.Gives.turn (Program.turn_nop h) (.here ⟨rfl, rfl, rfl⟩)).mono (Nat.le_succ k)
  | some l =>
    rw [Stmt.At] at h
    exact (Program.Gives.turn (Program.turn_jump h (hstart l rfl))
      (.here ⟨rfl, ⟨l, rfl, rfl⟩, rfl⟩)).mono (Nat.le_succ k)

/-- A condition that is false leads behind the body. -/
theorem followed_if (hcall : p.Follows echo k call) {around : Option Program.LoopBounds}
    (span : Span) (cond : Expr) {body : Block} (ih : FollowedAll p echo k call around body) :
    Followed p echo k call around (.ifStmt span cond body) := by
  intro s h hfit
  rw [Stmt.At] at h
  obtain ⟨hcond, hjump, hbody⟩ := h
  rw [Stmt.exec]
  rw [Stmt.width, ← Nat.add_assoc, ← Nat.add_assoc] at hfit ⊢
  refine (Expr.gives hcall cond s hcond).bind fun v s₁ h₁ => ?_
  refine (Program.Gives.branch h₁ hjump hfit fun s₂ hip hstore => ?_).mono (Nat.le_succ k)
  rw [← hstore]
  by_cases hv : v.isTruthy = true
  · rw [if_pos hv] at hip ⊢
    rw [← hip] at hbody hfit ⊢
    exact ih s₂ hbody hfit
  · rw [if_neg hv] at hip ⊢
    exact .here ⟨rfl, hip, rfl⟩

/-- Behind the first block the machine jumps over the other one. -/
theorem followed_over {around : Option Program.LoopBounds} {body : Block} {s : State} {finish : Nat}
    (ih : FollowedAll p echo k call around body) (hbody : Stmt.AllAt p Eq around body s.ip)
    (hover : p.GotoAt .jump finish (s.ip + Stmt.widths body)) (hfinish : finish ≤ p.code.size) :
    p.Gives echo s k (p.Went around s finish) (Stmt.execs call k around.isSome body s.store) := by
  have hfit : s.ip + Stmt.widths body < p.code.size := Program.lt_size_of_code hover
  rw [← Answer.bind_done (Stmt.execs call k around.isSome body s.store)]
  refine (ih s hbody (Nat.le_of_lt hfit)).bind fun flow s₁ h₁ => ?_
  cases flow with
  | next =>
    obtain ⟨hc₁, hip₁, hst₁⟩ := h₁
    rw [← hip₁] at hover
    exact (Program.Gives.turn (Program.turn_jump hover hfinish) (.here ⟨hc₁, rfl, hst₁⟩)).mono
      (Nat.le_succ k)
  | leave => exact .here h₁
  | again => exact .here h₁
  | returned v => exact .here h₁

/-- A condition leads to the first block if it is true, and to the other one if it is false. -/
theorem followed_ifElse (hcall : p.Follows echo k call) {around : Option Program.LoopBounds}
    (span : Span) (cond : Expr) {body other : Block} (ih : FollowedAll p echo k call around body)
    (ih' : FollowedAll p echo k call around other) :
    Followed p echo k call around (.ifElseStmt span cond body other) := by
  intro s h hfit
  rw [Stmt.At] at h
  obtain ⟨hcond, hjump, hbody, hover, hother⟩ := h
  rw [Stmt.exec]
  simp only [Stmt.width, ← Nat.add_assoc] at hfit ⊢
  refine (Expr.gives hcall cond s hcond).bind fun v s₁ h₁ => ?_
  refine (Program.Gives.branch h₁ hjump (by omega) fun s₂ hip hstore => ?_).mono (Nat.le_succ k)
  rw [← hstore]
  by_cases hv : v.isTruthy = true
  · rw [if_pos hv] at hip ⊢
    exact followed_over ih (hip ▸ hbody) (hip ▸ hover) hfit
  · rw [if_neg hv] at hip ⊢
    rw [← hip] at hother hfit ⊢
    exact ih' s₂ hother hfit

/-- The body of a loop is followed inside the bounds of the loop. -/
theorem followed_while (hcall : p.Follows echo k call) (around : Option Program.LoopBounds)
    (span : Span) (cond : Expr) {body : Block}
    (ih : ∀ l : Program.LoopBounds, l.start ≤ p.code.size → l.exit ≤ p.code.size →
      FollowedAll p echo k call (some l) body) :
    Followed p echo k call around (.whileStmt span cond body) := by
  intro s h hfit
  rw [Stmt.At] at h
  obtain ⟨hcond, hjump, hbody, hback⟩ := h
  rw [Stmt.exec]
  simp only [Stmt.width, ← Nat.add_assoc] at hfit ⊢
  refine repeatWhile_gives (fun t ht => ?_) (fun t ht => ?_) hjump hback k (Nat.le_refl k) s rfl
  · exact Expr.gives hcall cond t (ht ▸ hcond)
  · have hin := ih ⟨s.ip, s.ip + cond.width + 1 + Stmt.widths body + 1⟩ (by simp only; omega) hfit t
      (ht ▸ hbody) (by omega)
    rwa [ht] at hin

/-- The value of an expression statement is taken off the stack. -/
theorem followed_expr (hcall : p.Follows echo k call) (around : Option Program.LoopBounds)
    (span : Span) (value : Expr) : Followed p echo k call around (.exprStmt span value) := by
  intro s h _
  rw [Stmt.At] at h
  rw [Stmt.exec, Stmt.width]
  refine (Expr.gives hcall value s h.1).bind fun v s₁ h₁ => ?_
  have hpop := h.2
  rw [← h₁.ip] at hpop
  refine (Program.Gives.turn (Program.turn_pop hpop h₁.stack) (.here ⟨?_, ?_, rfl⟩)).mono
    (Nat.le_succ k)
  · exact State.context_congr h₁.frames
  · show s₁.ip + 1 = _
    rw [h₁.ip, Nat.add_assoc]

/-- Only a statement that goes on to what follows lets the rest of its block be carried out. -/
theorem followedAll_cons {around : Option Program.LoopBounds} {st : Stmt} {rest : List Stmt}
    (ih : Followed p echo k call around st) (ih' : FollowedAll p echo k call around rest) :
    FollowedAll p echo k call around (st :: rest) := by
  intro s h hfit
  rw [Stmt.AllAt] at h
  rw [Stmt.execs]
  rw [Stmt.widths, ← Nat.add_assoc] at hfit ⊢
  refine (ih s h.1 (by omega)).bind fun flow s₁ h₁ => ?_
  cases flow with
  | next =>
    obtain ⟨hc₁, hip₁, hst₁⟩ := h₁
    have hrest := h.2
    rw [← hip₁] at hrest hfit ⊢
    exact (ih' s₁ hrest hfit).imp fun flow s' h => h.of_eq hc₁ hst₁
  | leave => exact .here h₁
  | again => exact .here h₁
  | returned v => exact .here h₁

mutual

/-- The machine follows a statement, inside the loop whose bounds it was generated with. -/
theorem gives (hcall : p.Follows echo k call) (around : Option Program.LoopBounds)
    (hloop : ∀ l, around = some l → l.start ≤ p.code.size ∧ l.exit ≤ p.code.size) :
    ∀ st : Stmt, st.Followed p echo k call around
  | .letStmt _ x none => by
    intro s _ _
    rw [Stmt.exec]
    exact .here ⟨rfl, rfl, rfl⟩
  | .letStmt span x (some value) => followed_let hcall around span x value
  | .fnStmt span name params body => followed_fn around span name params body
  | .returnStmt _ none => by
    intro s h _
    rw [Stmt.At] at h
    rw [Stmt.exec]
    exact .here ⟨rfl, h, .inr ⟨rfl, rfl⟩⟩
  | .returnStmt span (some value) => followed_return hcall around span value
  | .breakStmt span => followed_break (fun l hl => (hloop l hl).2) span
  | .continueStmt span => followed_continue (fun l hl => (hloop l hl).1) span
  | .ifStmt span cond body => followed_if hcall span cond (gives_all hcall around hloop body)
  | .ifElseStmt span cond body other =>
    followed_ifElse hcall span cond (gives_all hcall around hloop body)
      (gives_all hcall around hloop other)
  | .whileStmt span cond body =>
    followed_while hcall around span cond fun l hstart hexit =>
      gives_all hcall (some l) (fun _ hl => Option.some.inj hl ▸ ⟨hstart, hexit⟩) body
  | .exprStmt span value => followed_expr hcall around span value

/-- The machine follows a block, inside the loop whose bounds it was generated with. -/
theorem gives_all (hcall : p.Follows echo k call) (around : Option Program.LoopBounds)
    (hloop : ∀ l, around = some l → l.start ≤ p.code.size ∧ l.exit ≤ p.code.size) :
    ∀ ss : List Stmt, Stmt.FollowedAll p echo k call around ss
  | [] => by
    intro s _ _
    rw [Stmt.execs]
    exact .here ⟨rfl, rfl, rfl⟩
  | st :: rest =>
    followedAll_cons (gives hcall around hloop st) (gives_all hcall around hloop rest)

end

end Stmt

end Statements

end Scriptlet
