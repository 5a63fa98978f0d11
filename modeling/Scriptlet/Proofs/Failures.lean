import Scriptlet.Proofs.Runs

/-!
# Instructions that fail

An instruction that fails has changed nothing but the stack, from which an operation on two values
has taken its operands and every other instruction nothing (`Program.spares_execute`).  So when a
run fails by itself, the fault names the instruction that failed, and the state is the one before
this instruction, less two values at most, and pointing behind it (`Program.runFor_failed`).
-/

namespace Scriptlet

/-! ## What an instruction can lose -/

/-- An instruction that fails has taken at most `k` values off the stack of a state and changed
nothing else.  One that ends the program has changed nothing. -/
def Outcome.Spares (o : Outcome) (s : State) (k : Nat) : Prop :=
  match o with
  | .next _ => True
  | .halt s' => s' = s
  | .fail _ s' => ∃ j ≤ k, s' = { s with stack := s.stack.drop j }

/-- How many values an operation may have taken off the stack when it fails. -/
def Opcode.forfeits : Opcode → Nat
  | .add | .sub | .mul | .div | .eq | .neq | .lt | .lte | .gt | .gte | .and | .or => 2
  | .loadConst | .loadVar | .storeVar | .jump | .jumpIfFalse | .call | .ret | .pop | .nop | .not =>
    0

theorem Opcode.forfeits_le (op : Opcode) : op.forfeits ≤ 2 := by
  cases op <;> decide

namespace Program

variable {p : Program} {s : State} {k : Nat}

/-- A state that is left as it is. -/
theorem spares_fail (fault : Fault) (s : State) (k : Nat) : (Outcome.fail fault s).Spares s k :=
  ⟨0, Nat.zero_le k, rfl⟩

/-- The topmost value is there when it is taken off, so nothing is lost. -/
theorem spares_withTop {f : Value → State → State} :
    (s.withTop fun value s => .next (f value s)).Spares s k := by
  unfold State.withTop
  split
  · exact spares_fail _ s k
  · trivial

/-- Both operands are lost, or the only value if there is one. -/
theorem spares_binary (f : Value → Value → Except Fault Value) : (s.binary f).Spares s 2 := by
  unfold State.binary
  split
  · next b a rest hstack =>
    split
    · trivial
    · exact ⟨2, Nat.le_refl 2, by rw [hstack]; rfl⟩
  · next hshort =>
    refine ⟨2, Nat.le_refl 2, ?_⟩
    cases hstack : s.stack with
    | nil => rfl
    | cons b rest =>
      cases rest with
      | nil => rfl
      | cons a rest => exact absurd hstack (hshort b a rest)

theorem spares_withConstant {index : Nat} {f : Literal → Outcome}
    (hf : ∀ value, (f value).Spares s k) : (p.withConstant index s f).Spares s k := by
  unfold withConstant
  split
  · exact hf _
  · exact spares_fail _ s k

theorem spares_withVariable {index : Nat} {f : String → Outcome}
    (hf : ∀ name, (f name).Spares s k) : (p.withVariable index s f).Spares s k := by
  unfold withVariable
  split
  · exact hf _
  · exact spares_fail _ s k

theorem spares_withTarget {target : Nat} {o : Outcome} (ho : o.Spares s k) :
    (p.withTarget target s o).Spares s k := by
  unfold withTarget
  split
  · exact spares_fail _ s k
  · exact ho

/-- A call takes its arguments off the stack when nothing can fail any more. -/
theorem spares_callNamed (echo : Bool) (name : String) (count : Nat) :
    (p.callNamed echo name count s).Spares s k := by
  unfold callNamed
  split
  · split
    · trivial
    · exact spares_fail _ s k
  · split
    · exact spares_fail _ s k
    · apply spares_withTarget
      split
      · exact spares_fail _ s k
      · trivial

/-- What an instruction that does not go on leaves of a state. -/
theorem spares_execute (echo : Bool) (x : Instruction) :
    (p.execute echo x s).Spares s x.op.forfeits := by
  unfold execute
  cases x.op with
  | nop => trivial
  | loadConst => exact spares_withConstant fun _ => trivial
  | loadVar => exact spares_withVariable fun _ => trivial
  | storeVar => exact spares_withVariable fun _ => spares_withTop
  | not => exact spares_withTop
  | pop => exact spares_withTop
  | jump => exact spares_withTarget trivial
  | jumpIfFalse => exact spares_withTarget spares_withTop
  | call =>
    apply spares_withConstant
    intro value
    cases value with
    | str name => exact spares_callNamed echo name x.arg2
    | int _ | float _ | bool _ => exact spares_fail _ s _
  | ret =>
    show s.returnFromCall.Spares s _
    unfold State.returnFromCall
    split
    · rfl
    · trivial
  | add | sub | mul | div | eq | neq | lt | lte | gt | gte | and | or => exact spares_binary _

/-! ## Turns and runs that fail -/

/-- A turn from one state to another fails at an instruction, which the fault names by its offset
and its operation.  The instruction is counted and passed, at most two values are off the stack, and
all else is as it was before. -/
structure FailsAt (p : Program) (settings : Settings) (x : Instruction) (before : State)
    (r : RuntimeFault) (after : State) : Prop where
  code : p.code[before.ip]? = some x
  turn : p.turn settings before = .failed r after
  site : r.site = some ⟨before.ip, x.op.name⟩
  ip : after.ip = before.ip + 1
  steps : after.steps = before.steps + 1
  globals : after.globals = before.globals
  frames : after.frames = before.frames
  printed : after.printed = before.printed
  screen : after.screen = before.screen
  input : after.input = before.input
  stack : ∃ taken : List Value, taken.length ≤ 2 ∧ before.stack = taken ++ after.stack
  /-- Only an operation on two values takes anything off. -/
  whole : x.op ∈ [.call, .jump, .jumpIfFalse, .loadConst, .loadVar, .storeVar, .not, .pop] →
    after.stack = before.stack

/-- A turn that fails by itself fails at the instruction at hand. -/
theorem exists_failsAt_of_turn {settings : Settings} {r : RuntimeFault} {after : State}
    (h : p.turn settings s = .failed r after)
    (hlimit : ∀ limit, r.fault ≠ .stepLimitExceeded limit) :
    ∃ x, p.FailsAt settings x s r after := by
  have hturn := h
  unfold Program.turn at h
  split at h
  · cases h
  · next x hcode =>
    dsimp only at h
    split at h
    · next limit _ =>
      cases h
      exact absurd rfl (hlimit limit)
    · -- What an instruction takes off the stack before it fails is at most what it forfeits.
      have hspares := spares_execute (p := p) (s := s.begun) settings.echo x
      rw [State.begun] at hspares
      split at h
      · cases h
      · cases h
      · next fault s' hexecute =>
        rw [hexecute] at hspares
        cases h
        obtain ⟨j, hj, rfl⟩ := hspares
        refine ⟨x, hcode, hturn, rfl, rfl, rfl, rfl, rfl, rfl, rfl, rfl, ?_, fun hop => ?_⟩
        · refine ⟨s.stack.take j, ?_, (List.take_append_drop j s.stack).symm⟩
          have hforfeits := x.op.forfeits_le
          rw [List.length_take]
          omega
        · have hzero : x.op.forfeits = 0 := by
            revert hop
            cases x.op <;> decide
          rw [hzero] at hj
          rw [Nat.le_zero.mp hj]
          rfl

/-- Failing instructions are located and leave what can be seen alone.  A run that fails other than
by its step limit has come to a state from which the next instruction fails; the fault names this
instruction, and the machine stops as that instruction leaves it. -/
theorem runFor_failed (p : Program) {settings : Settings} {n : Nat} {s after : State}
    {r : RuntimeFault} (h : p.runFor settings n s = .failed r after)
    (hlimit : ∀ limit, r.fault ≠ .stepLimitExceeded limit) :
    ∃ m before x, p.runFor settings m s = .next before ∧ p.FailsAt settings x before r after := by
  have hended : ¬(p.runFor settings n s).GoesOn := by
    rw [h]
    rintro ⟨t, ⟨⟩⟩
  obtain ⟨m, before, hrun, hturn⟩ := exists_turn_of_ended hended
  obtain ⟨x, hx⟩ := exists_failsAt_of_turn (hturn.trans h) hlimit
  exact ⟨m, before, x, hrun, hx⟩

/-- A program that prints a line and calls a function that adds its argument and a truth value. -/
def muddled : Program where
  code := #[⟨.loadConst, 0, 0⟩, ⟨.call, 1, 1⟩, ⟨.loadConst, 0, 0⟩, ⟨.call, 2, 1⟩,
    ⟨.loadVar, 0, 0⟩, ⟨.loadConst, 3, 0⟩, ⟨.add, 0, 0⟩]
  constants := #[.int 1, .str "print", .str "f", .bool true]
  variableNames := #["a"]
  functions := ⟨[("f", ⟨4, ["a"]⟩)]⟩
  builtins := Builtin.names

/-- The state in which `muddled` fails: the operands of the sum are gone, the value below them, the
call and the printed line are not. -/
def muddledAfter : State where
  ip := 7
  stack := [.null]
  frames := [⟨4, ⟨[("a", .int 1)]⟩, 1⟩]
  globals := ⟨[("g", .null)]⟩
  printed := ["1"]
  screen := []
  input := [65]
  steps := 7

/-- The sum of `muddled` fails in the function that was called. -/
theorem muddled_failed : ∃ m before x,
    muddled.runFor ⟨false, none⟩ m (.initial [65] ⟨[("g", .null)]⟩) = .next before ∧
    muddled.FailsAt ⟨false, none⟩ x before
      ⟨.typeMismatch "+" "int" "bool", some ⟨6, "ADD"⟩⟩ muddledAfter := by
  have hrun : muddled.runFor ⟨false, none⟩ 7 (.initial [65] ⟨[("g", .null)]⟩) =
      .failed ⟨.typeMismatch "+" "int" "bool", some ⟨6, "ADD"⟩⟩ muddledAfter := by
    with_unfolding_all rfl
  exact muddled.runFor_failed hrun nofun

end Program

end Scriptlet
