import Scriptlet.Proofs.Fits
import Scriptlet.Proofs.Simulation

/-!
# What an instruction can come to

An instruction that fits its notes, in a state with as many values as the note says, goes on in the
same call, enters a function, leaves one, ends the program or fails on the values it is given
(`Program.Effect`).  Everything that holds of all runs of generated programs follows from this.
-/

namespace Scriptlet

/-! ## Faults of operations on values -/

/-- The faults that an operation on values can have. -/
inductive Fault.OfValues : Fault → Prop
  | typeMismatch (op left right : String) : OfValues (.typeMismatch op left right)
  | integerOverflow (op : String) : OfValues (.integerOverflow op)
  | divisionByZero : OfValues .divisionByZero

namespace Value

/-- A result that does not fit is a fault of values. -/
theorem fault_of_ofInt {op : String} {n : Int} {cause : Fault} (h : ofInt op n = .error cause) :
    cause.OfValues := by
  unfold ofInt at h
  split at h
  · cases h
  · cases h
    exact .integerOverflow op

/-- Operands that are no numbers are a fault of values. -/
theorem fault_of_onFloats {op : String} {f : Float → Float → Float} {a b : Value} {cause : Fault}
    (h : onFloats op f a b = .error cause) : cause.OfValues := by
  unfold onFloats at h
  split at h
  · cases h
  · cases h
    exact .typeMismatch op a.typeName b.typeName

/-- A division fails for its operands only. -/
theorem fault_of_div {a b : Value} {cause : Fault} (h : div a b = .error cause) :
    cause.OfValues := by
  unfold div at h
  split at h
  · split at h
    · cases h
      exact .divisionByZero
    · cases h
  · cases h
    exact .typeMismatch "/" a.typeName b.typeName

/-- A comparison fails for its operands only. -/
theorem fault_of_compare {op : String} {a b : Value} {cause : Fault}
    (h : compare op a b = .error cause) : cause.OfValues := by
  unfold compare at h
  split at h
  · cases h
  · cases h
  · split at h
    · split at h
      · cases h
      · cases h
        exact .typeMismatch ..
    · cases h
      exact .typeMismatch ..

end Value

/-- An operation fails on the values it is given, and in no other way. -/
theorem BinaryOp.fault_of_apply {op : BinaryOp} {a b : Value} {cause : Fault}
    (h : op.apply a b = .error cause) : cause.OfValues := by
  have hmap : ∀ {r : Except Fault Ordering} {f : Ordering → Value},
      r.map f = .error cause → r = .error cause := by
    intro r f hr
    cases r with
    | error e => cases hr; rfl
    | ok v => cases hr
  cases op with
  | add =>
    rw [apply] at h
    unfold Value.add at h
    split at h
    · exact Value.fault_of_ofInt h
    · cases h
    · exact Value.fault_of_onFloats h
  | sub =>
    rw [apply] at h
    unfold Value.sub at h
    split at h
    · exact Value.fault_of_ofInt h
    · exact Value.fault_of_onFloats h
  | mul =>
    rw [apply] at h
    unfold Value.mul at h
    split at h
    · exact Value.fault_of_ofInt h
    · exact Value.fault_of_onFloats h
  | div => exact Value.fault_of_div h
  | lt => exact Value.fault_of_compare (hmap h)
  | ltEq => exact Value.fault_of_compare (hmap h)
  | gt => exact Value.fault_of_compare (hmap h)
  | gtEq => exact Value.fault_of_compare (hmap h)
  | eq => cases h
  | notEq => cases h
  | and => cases h
  | or => cases h

/-! ## Effects -/

/-- What an instruction comes to in a state that has its operands. -/
inductive Program.Effect (p : Program) (x : Instruction) (s : State) : Outcome → Prop
  /-- The call at hand goes on. -/
  | step {s' : State} (given : List Value) (hcontext : s'.context = s.context)
      (hip : s'.ip ∈ x.successors s.ip) (hgiven : given.length = x.gives)
      (hstack : s'.stack = given ++ s.stack.drop x.takes) : Effect p x s (.next s')
  /-- A function of the table is entered. -/
  | enter {name : String} {entry : FunctionEntry} (hop : x.op = .call)
      (hname : p.constants[x.arg1]? = some (.str name)) (hbuiltin : Builtin.ofName? name = none)
      (hentry : p.function? name = some entry) :
      Effect p x s (.next { s.begun with
        ip := entry.offset
        stack := s.stack.drop x.arg2
        frames := ⟨s.ip + 1, State.bindParameters entry.params (s.stack.take x.arg2).reverse,
          (s.stack.drop x.arg2).length⟩ :: s.frames })
  /-- The call at hand returns the value that it has on the stack, or null. -/
  | leave {frame : Frame} {frames : List Frame} (hop : x.op = .ret)
      (hframes : s.frames = frame :: frames) :
      Effect p x s (.next { s.begun with
        ip := frame.returnTo
        frames := frames
        stack := (if frame.base < s.stack.length then s.stack.headD .null else .null) ::
          s.stack.drop (s.stack.length - frame.base) })
  /-- A return outside all calls ends the program. -/
  | halt (hop : x.op = .ret) (hframes : s.frames = []) : Effect p x s (.halt s.begun)
  /-- An operation fails on the values it is given. -/
  | fault {op : BinaryOp} {cause : Fault} (hop : x.op = op.opcode) (hcause : cause.OfValues) :
      Effect p x s (.fail cause { s.begun with stack := s.stack.drop x.takes })
  /-- The name of a function is not known. -/
  | unknown {name : String} (hop : x.op = .call)
      (hname : p.constants[x.arg1]? = some (.str name)) (hbuiltin : Builtin.ofName? name = none)
      (hentry : p.function? name = none) : Effect p x s (.fail (.unknownFunction name) s.begun)

namespace Program

variable {p : Program} {x : Instruction} {s : State}

/-- An operation on two values. -/
theorem effect_binary (op : BinaryOp) (hx : x.op = op.opcode) (echo : Bool)
    (hlen : 2 ≤ s.stack.length) : p.Effect x s (p.execute echo x s.begun) := by
  have htakes : x.takes = 2 := by rw [Instruction.takes, hx]; cases op <;> rfl
  have hgives : x.gives = 1 := by rw [Instruction.gives, hx]; cases op <;> rfl
  have hnext : x.successors s.ip = [s.ip + 1] := by
    rw [Instruction.successors, hx]; cases op <;> rfl
  obtain ⟨b, a, rest, hs⟩ : ∃ b a rest, s.stack = b :: a :: rest := by
    match hs : s.stack with
    | [] => simp [hs] at hlen
    | [_] => simp [hs] at hlen
    | b :: a :: rest => exact ⟨b, a, rest, rfl⟩
  have hdrop : s.stack.drop x.takes = rest := by rw [htakes, hs]; rfl
  have hb : s.begun.stack = b :: a :: rest := hs
  rw [execute_binary op hx]
  simp only [State.binary, hb]
  cases happly : op.apply a b with
  | ok v =>
    refine .step [v] rfl ?_ hgives.symm ?_
    · rw [hnext]
      exact List.mem_singleton.mpr rfl
    · rw [hdrop]
      rfl
  | error cause =>
    rw [← hdrop]
    exact .fault hx (BinaryOp.fault_of_apply happly)

/-- A call of a built-in function, of a function of the table, or of an unknown name. -/
theorem effect_call {note : Nat → Note} {placed : List Placed} (hop : x.op = .call)
    (h : p.FitsAt note placed s.ip x) (echo : Bool) (hlen : x.takes ≤ s.stack.length)
    (hentry : ∀ {name entry}, p.function? name = some entry → entry.offset ≤ p.code.size) :
    p.Effect x s (p.execute echo x s.begun) := by
  obtain ⟨-, name, hname, -⟩ := h.call hop
  have htakes : x.takes = x.arg2 := by rw [Instruction.takes, hop]
  have hgives : x.gives = 1 := by rw [Instruction.gives, hop]
  have hnext : x.successors s.ip = [s.ip + 1] := by rw [Instruction.successors, hop]
  rw [htakes] at hlen
  -- There are enough values on the stack, so the arguments can be taken.
  have htake : s.begun.takeArguments? x.arg2 =
      some ((s.stack.take x.arg2).reverse, { s.begun with stack := s.stack.drop x.arg2 }) :=
    if_neg (Nat.not_lt.mpr hlen)
  simp only [execute, hop, callAt, withConstant, hname, callNamed, htake]
  cases hb : Builtin.ofName? name with
  | some b =>
    obtain ⟨-, hip, hstack, hframes⟩ := callBuiltin_eq echo b (s.stack.take x.arg2).reverse
      ({ s.begun with stack := s.stack.drop x.arg2 } : State)
    refine .step [(s.store.builtin echo (s.stack.take x.arg2).reverse b).1]
      (State.context_congr hframes) ?_ hgives.symm ?_
    · rw [hnext, hip]
      exact List.mem_singleton.mpr rfl
    · rw [htakes, hstack]
      rfl
  | none =>
    cases hf : p.function? name with
    | none => exact .unknown hop hname hb hf
    | some entry =>
      simp only [withTarget, if_neg (Nat.not_lt.mpr (hentry hf))]
      exact .enter hop hname hb hf

/-- An instruction that fits has one of the effects, in every state with enough values. -/
theorem FitsAt.effect {note : Nat → Note} {placed : List Placed} (h : p.FitsAt note placed s.ip x)
    (echo : Bool) (hlen : x.takes ≤ s.stack.length)
    (hentry : ∀ {name entry}, p.function? name = some entry → entry.offset ≤ p.code.size) :
    p.Effect x s (p.execute echo x s.begun) := by
  have htop : x.takes = 1 → ∃ v rest, s.stack = v :: rest := by
    intro ht
    rw [ht] at hlen
    exact List.exists_cons_of_length_pos hlen
  obtain ⟨op, k, n⟩ := x
  cases op with
  | nop => exact .step [] rfl (List.mem_singleton.mpr rfl) rfl rfl
  | loadConst =>
    -- What the operand of an instruction stands for is there, since the instruction fits.
    obtain ⟨v, hv⟩ := h.constant rfl
    simp only [execute, withConstant, hv]
    exact .step [.ofLiteral v] rfl (List.mem_singleton.mpr rfl) rfl rfl
  | loadVar =>
    obtain ⟨name, hname⟩ := h.loaded rfl
    simp only [execute, withVariable, hname]
    exact .step [_] rfl (List.mem_singleton.mpr rfl) rfl rfl
  | storeVar =>
    obtain ⟨name, hname⟩ := h.stored rfl
    obtain ⟨v, rest, hs⟩ := htop rfl
    have hb : s.begun.stack = v :: rest := hs
    simp only [execute, withVariable, hname, State.withTop, hb]
    refine .step [] (State.context_setVariable _ name v) ?_ rfl ?_
    · rw [State.ip_setVariable]
      exact List.mem_singleton.mpr rfl
    · rw [State.stack_setVariable, hs]
      rfl
  | pop =>
    obtain ⟨v, rest, hs⟩ := htop rfl
    have hb : s.begun.stack = v :: rest := hs
    simp only [execute, State.withTop, hb]
    exact .step [] rfl (List.mem_singleton.mpr rfl) rfl (by rw [hs]; rfl)
  | not =>
    obtain ⟨v, rest, hs⟩ := htop rfl
    have hb : s.begun.stack = v :: rest := hs
    simp only [execute, State.withTop, hb]
    exact .step [_] rfl (List.mem_singleton.mpr rfl) rfl (by rw [hs]; rfl)
  | jump =>
    have ht := (h.next k (List.mem_singleton.mpr rfl)).1
    simp only [execute, withTarget, if_neg (Nat.not_lt.mpr ht)]
    exact .step [] rfl (List.mem_singleton.mpr rfl) rfl rfl
  | jumpIfFalse =>
    have ht := (h.next k (List.mem_cons_of_mem _ (List.mem_singleton.mpr rfl))).1
    obtain ⟨v, rest, hs⟩ := htop rfl
    have hb : s.begun.stack = v :: rest := hs
    have hdrop : rest = [] ++ s.stack.drop 1 := by rw [hs]; rfl
    simp only [execute, withTarget, if_neg (Nat.not_lt.mpr ht), State.withTop, hb]
    cases v.isTruthy with
    | true => exact .step [] rfl (List.mem_cons_self ..) rfl hdrop
    | false =>
      exact .step [] rfl (List.mem_cons_of_mem _ (List.mem_singleton.mpr rfl)) rfl hdrop
  | call => exact effect_call rfl h echo hlen hentry
  | ret =>
    cases hf : s.frames with
    | nil =>
      have hb : s.begun.frames = [] := hf
      simp only [execute, State.returnFromCall, hb]
      exact .halt rfl hf
    | cons frame frames =>
      have hb : s.begun.frames = frame :: frames := hf
      simp only [execute, State.returnFromCall, hb]
      exact .leave rfl hf
  | add => exact effect_binary .add rfl echo hlen
  | sub => exact effect_binary .sub rfl echo hlen
  | mul => exact effect_binary .mul rfl echo hlen
  | div => exact effect_binary .div rfl echo hlen
  | eq => exact effect_binary .eq rfl echo hlen
  | neq => exact effect_binary .notEq rfl echo hlen
  | lt => exact effect_binary .lt rfl echo hlen
  | lte => exact effect_binary .ltEq rfl echo hlen
  | gt => exact effect_binary .gt rfl echo hlen
  | gte => exact effect_binary .gtEq rfl echo hlen
  | and => exact effect_binary .and rfl echo hlen
  | or => exact effect_binary .or rfl echo hlen

end Program

end Scriptlet
