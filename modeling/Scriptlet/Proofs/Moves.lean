import Scriptlet.Proofs.Failures
import Scriptlet.Proofs.Fits
import Scriptlet.Proofs.Simulation

/-!
# How a turn changes variables and calls

A turn that goes on leaves all variables alone, writes one, enters a function or leaves one
(`Program.Moves`).  One that does not go on changes neither the variables nor the active calls
(`Program.stays_of_ended`).  This holds of all programs, whatever their operands are.
-/

namespace Scriptlet

/-! ## Turns that go on -/

/-- What a turn that goes on does to the variables and the active calls. -/
inductive Program.Moves (p : Program) (x : Instruction) (s s' : State) : Prop
  /-- The call at hand goes on, and no variable changes. -/
  | on (hop : x.op ≠ .storeVar) (hip : s'.ip ∈ x.successors s.ip) (hframes : s'.frames = s.frames)
      (hglobals : s'.globals = s.globals)
  /-- The call at hand goes on, and one variable is written. -/
  | store {name : String} {v : Value} (hop : x.op = .storeVar)
      (hname : p.variableNames[x.arg1]? = some name) (hip : s'.ip = s.ip + 1)
      (hframes : s'.frames = (s.setVariable name v).frames)
      (hglobals : s'.globals = (s.setVariable name v).globals)
  /-- A function of the table is entered. -/
  | enter {name : String} {entry : FunctionEntry} {args : List Value} {base : Nat}
      (hop : x.op = .call) (hname : p.constants[x.arg1]? = some (.str name))
      (hbuiltin : Builtin.ofName? name = none) (hentry : p.function? name = some entry)
      (hip : s'.ip = entry.offset)
      (hframes : s'.frames = ⟨s.ip + 1, State.bindParameters entry.params args, base⟩ :: s.frames)
      (hglobals : s'.globals = s.globals)
  /-- The call at hand returns. -/
  | leave {frame : Frame} (hop : x.op = .ret) (hframes : s.frames = frame :: s'.frames)
      (hip : s'.ip = frame.returnTo) (hglobals : s'.globals = s.globals)

namespace Program

variable {p : Program} {x : Instruction} {s s' : State} {echo : Bool}

/-- An instruction that goes on behind itself and changes no variable. -/
theorem moves_on (hop : x.op ≠ .storeVar) (hnext : x.successors s.ip = [s.ip + 1])
    (hip : s'.ip = s.ip + 1) (hframes : s'.frames = s.frames) (hglobals : s'.globals = s.globals) :
    p.Moves x s s' :=
  .on hop (by rw [hnext, hip]; exact List.mem_singleton.mpr rfl) hframes hglobals

/-- An operation on two values changes the stack alone. -/
theorem moves_binary {f : Value → Value → Except Fault Value} (hop : x.op ≠ .storeVar)
    (hnext : x.successors s.ip = [s.ip + 1]) (h : s.begun.binary f = .next s') :
    p.Moves x s s' := by
  unfold State.binary at h
  split at h
  · split at h
    · cases h
      exact moves_on hop hnext rfl rfl rfl
    · cases h
  · cases h

theorem exists_of_withTop {f : Value → State → Outcome} (h : s.withTop f = .next s') :
    ∃ v rest, f v { s with stack := rest } = .next s' := by
  unfold State.withTop at h
  split at h
  · cases h
  · exact ⟨_, _, h⟩

theorem of_withTarget {target : Nat} {k : Outcome} (h : p.withTarget target s k = .next s') :
    k = .next s' := by
  unfold withTarget at h
  split at h
  · cases h
  · exact h

theorem of_takeArguments? {count : Nat} {args : List Value} {t : State}
    (h : s.takeArguments? count = some (args, t)) :
    t.ip = s.ip ∧ t.frames = s.frames ∧ t.globals = s.globals := by
  unfold State.takeArguments? at h
  split at h
  · cases h
  · cases h
    exact ⟨rfl, rfl, rfl⟩

/-- A call of a built-in function changes no variable, and one of another enters a function. -/
theorem moves_callNamed {name : String} (hop : x.op = .call)
    (hname : p.constants[x.arg1]? = some (.str name))
    (h : p.callNamed echo name x.arg2 s.begun = .next s') : p.Moves x s s' := by
  unfold callNamed at h
  cases hbuiltin : Builtin.ofName? name with
  | some b =>
    rw [hbuiltin] at h
    dsimp only at h
    split at h
    · next args t hargs =>
      cases h
      obtain ⟨hip, hframes, hglobals⟩ := of_takeArguments? hargs
      obtain ⟨-, hip', -, hframes'⟩ := callBuiltin_eq echo b args t
      -- Built-in functions read input and write output, and leave all variables alone.
      have hglobals' : (t.callBuiltin echo args b).globals = t.globals := by
        cases b with
        | print => cases echo <;> rfl
        | input => cases args <;> rfl
      refine moves_on ?_ ?_ (hip'.trans hip) (hframes'.trans hframes) (hglobals'.trans hglobals)
      · rw [hop]
        nofun
      · rw [Instruction.successors, hop]
    · cases h
  | none =>
    rw [hbuiltin] at h
    dsimp only at h
    cases hentry : p.function? name with
    | none =>
      rw [hentry] at h
      cases h
    | some entry =>
      rw [hentry] at h
      have h := of_withTarget h
      split at h
      · cases h
      · next args t hargs =>
        cases h
        obtain ⟨hip, hframes, hglobals⟩ := of_takeArguments? hargs
        -- The call returns to the offset behind it.
        have hcalls : (⟨t.ip, State.bindParameters entry.params args, t.stack.length⟩ : Frame) ::
            t.frames = ⟨s.ip + 1, State.bindParameters entry.params args, t.stack.length⟩ ::
              s.frames := by
          rw [hip, hframes]
          rfl
        exact .enter hop hname hbuiltin hentry rfl hcalls hglobals

/-- Every instruction that goes on moves in one of these ways. -/
theorem moves_of_execute (h : p.execute echo x s.begun = .next s') : p.Moves x s s' := by
  obtain ⟨op, k, n⟩ := x
  cases op with
  | nop =>
    cases h
    exact moves_on nofun rfl rfl rfl rfl
  | loadConst =>
    dsimp only [execute, withConstant] at h
    split at h
    · cases h
      exact moves_on nofun rfl rfl rfl rfl
    · cases h
  | loadVar =>
    dsimp only [execute, withVariable] at h
    split at h
    · cases h
      exact moves_on nofun rfl rfl rfl rfl
    · cases h
  | storeVar =>
    dsimp only [execute, withVariable] at h
    split at h
    · next name hname =>
      obtain ⟨v, rest, h⟩ := exists_of_withTop h
      cases h
      -- The value goes to the active call if there is one, and else outside of all calls.
      refine .store (v := v) rfl hname (State.ip_setVariable ..) ?_ ?_
      · unfold State.setVariable State.begun
        cases s.frames <;> rfl
      · unfold State.setVariable State.begun
        cases s.frames <;> rfl
    · cases h
  | not =>
    dsimp only [execute] at h
    obtain ⟨v, rest, h⟩ := exists_of_withTop h
    cases h
    exact moves_on nofun rfl rfl rfl rfl
  | pop =>
    dsimp only [execute] at h
    obtain ⟨v, rest, h⟩ := exists_of_withTop h
    cases h
    exact moves_on nofun rfl rfl rfl rfl
  | jump =>
    cases of_withTarget h
    exact .on nofun (List.mem_singleton.mpr rfl) rfl rfl
  | jumpIfFalse =>
    obtain ⟨v, rest, h⟩ := exists_of_withTop (of_withTarget h)
    cases h
    -- The two successors are the next offset and the target.
    cases v.isTruthy with
    | true => exact .on nofun (List.mem_cons_self ..) rfl rfl
    | false => exact .on nofun (List.mem_cons_of_mem _ (List.mem_singleton.mpr rfl)) rfl rfl
  | call =>
    dsimp only [execute, callAt, withConstant] at h
    split at h
    · next value hvalue =>
      split at h
      · exact moves_callNamed rfl hvalue h
      · cases h
    · cases h
  | ret =>
    dsimp only [execute, State.returnFromCall] at h
    split at h
    · cases h
    · next frame frames hframes =>
      cases h
      exact .leave rfl hframes rfl rfl
  | add | sub | mul | div | eq | neq | lt | lte | gt | gte | and | or =>
    dsimp only [execute, State.comparison] at h
    exact moves_binary nofun rfl h

/-- Every turn that goes on moves in one of these ways. -/
theorem moves_of_turn {settings : Settings} (h : p.turn settings s = .next s') :
    ∃ x, p.code[s.ip]? = some x ∧ p.Moves x s s' := by
  unfold turn at h
  split at h
  · cases h
  · next x hcode =>
    split at h
    · cases h
    · split at h
      · next t hexecute =>
        cases h
        exact ⟨x, hcode, moves_of_execute hexecute⟩
      · cases h
      · cases h

end Program

/-! ## Turns that do not go on -/

/-- An instruction that ends or fails leaves the variables and the active calls of a state alone. -/
def Outcome.Stays (o : Outcome) (s : State) : Prop :=
  match o with
  | .next _ => True
  | .halt s' => s'.frames = s.frames ∧ s'.globals = s.globals
  | .fail _ s' => s'.frames = s.frames ∧ s'.globals = s.globals

namespace Program

variable {p : Program} {s : State}

theorem stays_execute (echo : Bool) (x : Instruction) : (p.execute echo x s).Stays s := by
  have hspares := spares_execute (p := p) (s := s) echo x
  cases hexecute : p.execute echo x s with
  | next s' => trivial
  | halt s' =>
    rw [hexecute] at hspares
    cases hspares
    exact ⟨rfl, rfl⟩
  | fail fault s' =>
    rw [hexecute] at hspares
    obtain ⟨j, -, rfl⟩ := hspares
    exact ⟨rfl, rfl⟩

/-- A turn that does not go on leaves the variables and the active calls alone. -/
theorem stays_of_ended {settings : Settings} (h : ¬(p.turn settings s).GoesOn) :
    (p.turn settings s).state.frames = s.frames ∧
      (p.turn settings s).state.globals = s.globals := by
  unfold turn at h ⊢
  split at h
  · exact ⟨rfl, rfl⟩
  · next x hcode =>
    dsimp only at h ⊢
    split at h
    · exact ⟨rfl, rfl⟩
    · have hstays := stays_execute (p := p) (s := s.begun) settings.echo x
      rw [State.begun] at hstays
      split at h
      · exact absurd ⟨_, rfl⟩ h
      · next s' hexecute =>
        rw [hexecute] at hstays
        exact hstays
      · next fault s' hexecute =>
        rw [hexecute] at hstays
        exact hstays

end Program

end Scriptlet
