import Scriptlet.Machine.Step

/-!
# Runs of the machine

A run is cut at any state it passes, and what a turn keeps, a run keeps.  A run that has ended stays
as it is however many turns are allowed.  Every turn that goes on counts one step, so a run with a
step limit ends.
-/

namespace Scriptlet

/-- The state in which the instruction at hand is carried out: it is counted, and the machine points
behind it. -/
def State.begun (s : State) : State := { s with ip := s.ip + 1, steps := s.steps + 1 }

/-- Whether a run goes on. -/
def Turn.GoesOn (t : Turn) : Prop := ∃ s, t = .next s

/-- The state that an instruction leaves. -/
def Outcome.state : Outcome → State
  | next s => s
  | halt s => s
  | fail _ s => s

namespace Program

variable {p : Program} {settings : Settings} {s s' : State} {m n : Nat}

/-! ## One turn -/

/-- Without a step limit, a turn is what the instruction at hand does. -/
theorem turn_of_code {echo : Bool} {i : Instruction} (hcode : p.code[s.ip]? = some i) :
    p.turn ⟨echo, none⟩ s =
      match p.execute echo i s.begun with
      | .next s' => .next s'
      | .halt s' => .done s'
      | .fail fault s' => .failed ⟨fault, some ⟨s.ip, i.op.name⟩⟩ s' := by
  simp only [turn, hcode]
  rfl

/-- A turn at the end of the code ends the run. -/
theorem turn_of_end (hcode : p.code[s.ip]? = none) : p.turn settings s = .done s := by
  simp only [turn, hcode]

/-! ## Cutting and joining runs -/

/-- A run whose first turn goes on is that turn and the rest of the run. -/
theorem runFor_succ_of_turn (h : p.turn settings s = .next s') (n : Nat) :
    p.runFor settings (n + 1) s = p.runFor settings n s' := by
  simp only [runFor, h]

/-- A run whose first turn ends it is that turn. -/
theorem runFor_succ_of_ended (h : ¬(p.turn settings s).GoesOn) (n : Nat) :
    p.runFor settings (n + 1) s = p.turn settings s := by
  rw [runFor]
  split
  · next t ht => exact absurd ⟨t, ht⟩ h
  · rfl

/-- A run that goes on has a first turn that goes on. -/
theorem exists_turn_of_runFor_succ (h : p.runFor settings (n + 1) s = .next s') :
    ∃ t, p.turn settings s = .next t ∧ p.runFor settings n t = .next s' := by
  by_cases hgo : (p.turn settings s).GoesOn
  · obtain ⟨t, ht⟩ := hgo
    exact ⟨t, ht, by rwa [runFor_succ_of_turn ht] at h⟩
  · rw [runFor_succ_of_ended hgo] at h
    exact absurd ⟨s', h⟩ hgo

/-- Going on from a state that a run has come to. -/
theorem runFor_add (h : p.runFor settings m s = .next s') (n : Nat) :
    p.runFor settings (m + n) s = p.runFor settings n s' := by
  induction m generalizing s with
  | zero =>
    cases h
    rw [Nat.zero_add]
  | succ m ih =>
    obtain ⟨t, ht, hrest⟩ := exists_turn_of_runFor_succ h
    rw [Nat.add_right_comm, runFor_succ_of_turn ht]
    exact ih hrest

/-- A run that has come to a state ends if the next turn does. -/
theorem runFor_concat_of_ended (h : p.runFor settings m s = .next s')
    (hended : ¬(p.turn settings s').GoesOn) :
    p.runFor settings (m + 1) s = p.turn settings s' := by
  rw [runFor_add h, runFor_succ_of_ended hended]

/-- A run that goes on has gone on all the time. -/
theorem exists_runFor_of_le (h : p.runFor settings n s = .next s') (hmn : m ≤ n) :
    ∃ t, p.runFor settings m s = .next t := by
  induction m generalizing s n with
  | zero => exact ⟨s, rfl⟩
  | succ m ih =>
    obtain ⟨n, rfl⟩ : ∃ k, n = k + 1 := ⟨n - 1, by omega⟩
    obtain ⟨t, ht, hrest⟩ := exists_turn_of_runFor_succ h
    rw [runFor_succ_of_turn ht]
    exact ih hrest (by omega)

/-- A run that goes on has a last turn. -/
theorem exists_last_turn (h : p.runFor settings (n + 1) s = .next s') :
    ∃ t, p.runFor settings n s = .next t ∧ p.turn settings t = .next s' := by
  obtain ⟨t, ht⟩ := exists_runFor_of_le h (Nat.le_succ n)
  rw [runFor_add ht] at h
  obtain ⟨u, hu, hlast⟩ := exists_turn_of_runFor_succ h
  cases hlast
  exact ⟨t, ht, hu⟩

/-- A run that has ended is not changed by allowing more turns. -/
theorem runFor_eq_of_ended (h : ¬(p.runFor settings m s).GoesOn) (hmn : m ≤ n) :
    p.runFor settings n s = p.runFor settings m s := by
  induction m generalizing s n with
  | zero => exact absurd ⟨s, rfl⟩ h
  | succ m ih =>
    obtain ⟨n, rfl⟩ : ∃ k, n = k + 1 := ⟨n - 1, by omega⟩
    by_cases hgo : (p.turn settings s).GoesOn
    · obtain ⟨t, ht⟩ := hgo
      rw [runFor_succ_of_turn ht] at h
      rw [runFor_succ_of_turn ht, runFor_succ_of_turn ht]
      exact ih h (by omega)
    · rw [runFor_succ_of_ended hgo, runFor_succ_of_ended hgo]

/-- Two numbers of turns after which a run has ended give the same end. -/
theorem runFor_unique (hm : ¬(p.runFor settings m s).GoesOn)
    (hn : ¬(p.runFor settings n s).GoesOn) : p.runFor settings m s = p.runFor settings n s := by
  rcases Nat.le_total m n with h | h
  · rw [runFor_eq_of_ended hm h]
  · rw [runFor_eq_of_ended hn h]

/-- A run ends with the turn from some state that it passes. -/
theorem exists_turn_of_ended (h : ¬(p.runFor settings n s).GoesOn) :
    ∃ m t, p.runFor settings m s = .next t ∧ p.turn settings t = p.runFor settings n s := by
  induction n generalizing s with
  | zero => exact absurd ⟨s, rfl⟩ h
  | succ n ih =>
    by_cases hgo : (p.turn settings s).GoesOn
    · obtain ⟨u, hu⟩ := hgo
      rw [runFor_succ_of_turn hu] at h ⊢
      obtain ⟨m, t, hm, hturn⟩ := ih h
      exact ⟨m + 1, t, by rw [runFor_succ_of_turn hu, hm], hturn⟩
    · exact ⟨0, s, rfl, by rw [runFor_succ_of_ended hgo]⟩

/-! ## Invariants -/

/-- What holds at the start and is kept by every turn that goes on holds all the time. -/
theorem runFor_invariant {I : State → Prop}
    (step : ∀ {s s' : State}, I s → p.turn settings s = .next s' → I s') (hs : I s)
    (h : p.runFor settings n s = .next s') : I s' := by
  induction n generalizing s with
  | zero =>
    cases h
    exact hs
  | succ n ih =>
    obtain ⟨t, ht, hrest⟩ := exists_turn_of_runFor_succ h
    exact ih (step hs ht) hrest

/-! ## Counting steps -/

/-- Taking a value off the stack counts no step. -/
theorem steps_withTop {f : Value → State → Outcome}
    (hf : ∀ value s', s'.steps = s.steps → (f value s').state.steps = s.steps) :
    (s.withTop f).state.steps = s.steps := by
  unfold State.withTop
  split
  · rfl
  · exact hf _ _ rfl

/-- An operation counts no step of its own. -/
theorem steps_binary (f : Value → Value → Except Fault Value) :
    (s.binary f).state.steps = s.steps := by
  unfold State.binary
  split
  · split <;> rfl
  · rfl

/-- Looking a constant up counts no step. -/
theorem steps_withConstant {index : Nat} {f : Literal → Outcome}
    (hf : ∀ value, (f value).state.steps = s.steps) :
    (p.withConstant index s f).state.steps = s.steps := by
  unfold withConstant
  split
  · exact hf _
  · rfl

/-- Looking a variable name up counts no step. -/
theorem steps_withVariable {index : Nat} {f : String → Outcome}
    (hf : ∀ name, (f name).state.steps = s.steps) :
    (p.withVariable index s f).state.steps = s.steps := by
  unfold withVariable
  split
  · exact hf _
  · rfl

/-- Checking a target counts no step. -/
theorem steps_withTarget {target : Nat} {k : Outcome} (hk : k.state.steps = s.steps) :
    (p.withTarget target s k).state.steps = s.steps := by
  unfold withTarget
  split
  · rfl
  · exact hk

/-- Writing a variable counts no step. -/
theorem steps_setVariable (name : String) (value : Value) :
    (s.setVariable name value).steps = s.steps := by
  unfold State.setVariable
  split <;> rfl

/-- A built-in function counts no step of its own. -/
theorem steps_callBuiltin (echo : Bool) (args : List Value) (b : Builtin) :
    (s.callBuiltin echo args b).steps = s.steps := by
  cases b with
  | print => cases echo <;> rfl
  | input => cases args <;> rfl

/-- Taking arguments off the stack counts no step. -/
theorem steps_of_takeArguments? {count : Nat} {taken : List Value × State}
    (h : s.takeArguments? count = some taken) : taken.2.steps = s.steps := by
  unfold State.takeArguments? at h
  split at h
  · cases h
  · cases h
    rfl

/-- A call counts no step of its own. -/
theorem steps_callNamed (echo : Bool) (name : String) (count : Nat) :
    (p.callNamed echo name count s).state.steps = s.steps := by
  unfold callNamed
  cases Builtin.ofName? name with
  | some b =>
    cases hargs : s.takeArguments? count with
    | none => rfl
    | some taken => exact (steps_callBuiltin ..).trans (steps_of_takeArguments? hargs)
  | none =>
    cases p.function? name with
    | none => rfl
    | some entry =>
      apply steps_withTarget
      cases hargs : s.takeArguments? count with
      | none => rfl
      | some taken =>
        have hsteps := steps_of_takeArguments? hargs
        exact hsteps

/-- No instruction changes the count of steps. -/
theorem steps_execute (echo : Bool) (i : Instruction) :
    (p.execute echo i s).state.steps = s.steps := by
  unfold execute
  cases i.op with
  | nop => rfl
  | loadConst => exact steps_withConstant fun _ => rfl
  | loadVar => exact steps_withVariable fun _ => rfl
  | storeVar =>
    apply steps_withVariable
    intro name
    apply steps_withTop
    intro value s' hs'
    exact (steps_setVariable ..).trans hs'
  | not => exact steps_withTop fun _ _ hs' => hs'
  | pop => exact steps_withTop fun _ _ hs' => hs'
  | jump => exact steps_withTarget rfl
  | jumpIfFalse =>
    apply steps_withTarget
    apply steps_withTop
    intro value s' hs'
    cases hv : value.isTruthy <;> simpa [Outcome.state, hv] using hs'
  | call =>
    apply steps_withConstant
    intro value
    cases value with
    | str name => exact steps_callNamed ..
    | _ => rfl
  | ret =>
    show s.returnFromCall.state.steps = s.steps
    unfold State.returnFromCall
    split <;> rfl
  | _ => exact steps_binary _

/-- A turn that goes on counts one step, within the step limit. -/
theorem steps_of_turn (h : p.turn settings s = .next s') :
    s'.steps = s.steps + 1 ∧ limitReached? settings s = none := by
  unfold turn at h
  split at h
  · cases h
  · next i hcode =>
    split at h
    · cases h
    · next hlimit =>
      split at h
      · next t hexecute =>
        cases h
        have hsteps := steps_execute (p := p) (s := s.begun) settings.echo i
        rw [State.begun, hexecute] at hsteps
        exact ⟨hsteps, hlimit⟩
      · cases h
      · cases h

/-- Every turn of a run counts one step. -/
theorem steps_of_runFor (h : p.runFor settings n s = .next s') : s'.steps = s.steps + n := by
  induction n generalizing s with
  | zero =>
    cases h
    rfl
  | succ n ih =>
    obtain ⟨t, ht, hrest⟩ := exists_turn_of_runFor_succ h
    have hsteps := ih hrest
    rw [(steps_of_turn ht).1] at hsteps
    omega

/-- A run with a step limit ends. -/
theorem ends_of_maxSteps {limit : Nat} (hlimit : settings.maxSteps = some limit) :
    ¬(p.runFor settings (limit - s.steps + 1) s).GoesOn := by
  rintro ⟨s', hrun⟩
  obtain ⟨t, ht, hturn⟩ := exists_last_turn hrun
  have hsteps := steps_of_runFor ht
  have hreached : limitReached? settings t = some limit := by
    rw [limitReached?, hlimit, Option.filter_some, if_pos (decide_eq_true (by omega))]
  rw [(steps_of_turn hturn).2] at hreached
  cases hreached

end Program

end Scriptlet
