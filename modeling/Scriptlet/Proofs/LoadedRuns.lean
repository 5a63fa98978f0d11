import Scriptlet.Proofs.Effects
import Scriptlet.Proofs.Ranges
import Scriptlet.Proofs.SortedEntries

/-!
# Loaded programs run in their code

The checks of the loader are made once, and those of the machine at every instruction.  A program
that has passed the first never fails one of the second: whatever it does, and however often it is
taken up again, the next instruction and all places to return to lie in its code or at its end, and
no operand points to nothing (`Program.session_of_load`).
-/

namespace Scriptlet

/-- The faults of an operand that points to nothing. -/
inductive Fault.Dangling : Fault → Prop
  | badConstant (index size : Nat) : Dangling (.badConstant index size)
  | badVariable (index size : Nat) : Dangling (.badVariable index size)
  | invalidJumpTarget (target size : Nat) : Dangling (.invalidJumpTarget target size)

/-- A fault of values is not the fault of an operand. -/
theorem Fault.OfValues.not_dangling {fault : Fault} (h : fault.OfValues) : ¬fault.Dangling := by
  cases h <;> nofun

/-- The next instruction and all places to return to lie in the code or at its end. -/
structure State.InCode (s : State) (p : Program) : Prop where
  ip : s.ip ≤ p.code.size
  returnTo : ∀ f ∈ s.frames, f.returnTo ≤ p.code.size

/-- An instruction leaves the machine in the code, and does not fail on its operand. -/
structure Outcome.InCode (o : Outcome) (p : Program) : Prop where
  state : o.state.InCode p
  fault : ∀ {fault s}, o = .fail fault s → ¬fault.Dangling

section InCode

variable {p : Program} {s s' : State}

/-! ## Parts of instructions -/

/-- Only the next instruction and the places to return to matter. -/
theorem State.InCode.congr (h : s.InCode p) (hip : s'.ip = s.ip) (hframes : s'.frames = s.frames) :
    s'.InCode p :=
  ⟨hip ▸ h.ip, hframes ▸ h.returnTo⟩

namespace Outcome.InCode

theorem next (h : s.InCode p) : (Outcome.next s).InCode p := ⟨h, nofun⟩

theorem halt (h : s.InCode p) : (Outcome.halt s).InCode p := ⟨h, nofun⟩

/-- A failure of any other kind leaves the machine where it is. -/
theorem fail {fault : Fault} (h : s.InCode p) (hfault : ¬fault.Dangling) :
    (Outcome.fail fault s).InCode p := by
  refine ⟨h, ?_⟩
  rintro _ _ ⟨⟩
  exact hfault

end Outcome.InCode

namespace State.InCode

/-- Taking a value off the stack moves nothing. -/
theorem withTop (h : s.InCode p) {f : Value → State → Outcome}
    (hf : ∀ value s', s'.InCode p → (f value s').InCode p) : (s.withTop f).InCode p := by
  unfold State.withTop
  split
  · exact .fail h nofun
  · exact hf _ _ (h.congr rfl rfl)

/-- Operations move nothing, and they fail for their values only. -/
theorem binary (h : s.InCode p) (op : BinaryOp) : (s.binary op.apply).InCode p := by
  unfold State.binary
  split
  · split
    · exact .next (h.congr rfl rfl)
    · next hfault => exact .fail (h.congr rfl rfl) (BinaryOp.fault_of_apply hfault).not_dangling
  · exact .fail (h.congr rfl rfl) nofun

/-- The index of a constant that is in range leads to a constant. -/
theorem withConstant {index : Nat} {f : Literal → Outcome} (hindex : index < p.constants.size)
    (hf : ∀ value, (f value).InCode p) : (p.withConstant index s f).InCode p := by
  simp only [Program.withConstant, Array.getElem?_eq_getElem hindex]
  exact hf _

/-- The index of a variable name that is in range leads to a name. -/
theorem withVariable {index : Nat} {f : String → Outcome} (hindex : index < p.variableNames.size)
    (hf : ∀ name, (f name).InCode p) : (p.withVariable index s f).InCode p := by
  simp only [Program.withVariable, Array.getElem?_eq_getElem hindex]
  exact hf _

/-- A target in the code or at its end is accepted. -/
theorem withTarget {target : Nat} {k : Outcome} (htarget : target ≤ p.code.size)
    (hk : k.InCode p) : (p.withTarget target s k).InCode p := by
  unfold Program.withTarget
  rwa [if_neg (Nat.not_lt.mpr htarget)]

theorem jump (h : s.InCode p) {target : Nat} (htarget : target ≤ p.code.size) :
    ({ s with ip := target } : State).InCode p :=
  ⟨htarget, h.returnTo⟩

/-- A variable is not a place to return to. -/
theorem setVariable (h : s.InCode p) (name : String) (value : Value) :
    (s.setVariable name value).InCode p := by
  unfold State.setVariable
  split
  · exact h.congr rfl rfl
  · next f rest hframes =>
    refine ⟨h.ip, fun g hg => ?_⟩
    have hold := h.returnTo
    rw [hframes] at hold
    rcases List.mem_cons.mp hg with rfl | hg
    · exact hold f (List.mem_cons_self ..)
    · exact hold g (List.mem_cons_of_mem _ hg)

/-- Taking arguments off the stack moves nothing. -/
theorem of_takeArguments? (h : s.InCode p) {count : Nat} {taken : List Value × State}
    (htaken : s.takeArguments? count = some taken) : taken.2.InCode p := by
  unfold State.takeArguments? at htaken
  split at htaken
  · cases htaken
  · cases htaken
    exact h.congr rfl rfl

/-- The place to return to is one that a frame has kept. -/
theorem returnFromCall (h : s.InCode p) : s.returnFromCall.InCode p := by
  unfold State.returnFromCall
  split
  · exact .halt h
  · next frame frames hframes =>
    have hold := h.returnTo
    rw [hframes] at hold
    exact .next ⟨hold frame (List.mem_cons_self ..), fun f hf => hold f (List.mem_cons_of_mem _ hf)⟩

/-- A call keeps the place behind it, and goes to where the table says. -/
theorem callNamed (h : s.InCode p) (hp : p.InRange) (echo : Bool) (name : String) (count : Nat) :
    (p.callNamed echo name count s).InCode p := by
  unfold Program.callNamed
  cases Builtin.ofName? name with
  | some b =>
    cases hargs : s.takeArguments? count with
    | none => exact .fail h nofun
    | some taken =>
      obtain ⟨-, hip, -, hframes⟩ := Program.callBuiltin_eq echo b taken.1 taken.2
      exact .next ((h.of_takeArguments? hargs).congr hip hframes)
  | none =>
    cases hentry : p.function? name with
    | none => exact .fail h nofun
    | some entry =>
      have hoffset : entry.offset ≤ p.code.size :=
        hp.offset _ (SortedMap.mem_entries_of_find? hentry)
      refine withTarget hoffset ?_
      cases hargs : s.takeArguments? count with
      | none => exact .fail h nofun
      | some taken =>
        have htaken := h.of_takeArguments? hargs
        refine .next ⟨hoffset, fun f hf => ?_⟩
        rcases List.mem_cons.mp hf with rfl | hf
        · exact htaken.ip
        · exact htaken.returnTo f hf

/-! ## Instructions, turns and runs -/

/-- An instruction whose operand is in range leaves the machine in the code. -/
theorem execute (h : s.InCode p) (hp : p.InRange) (echo : Bool) {x : Instruction}
    (hx : p.OperandInRange x) : (p.execute echo x s).InCode p := by
  obtain ⟨op, k, n⟩ := x
  cases op with
  | nop => exact .next h
  | loadConst => exact withConstant (hx _ rfl) fun _ => .next (h.congr rfl rfl)
  | loadVar => exact withVariable (hx _ rfl) fun _ => .next (h.congr rfl rfl)
  | storeVar =>
    refine withVariable (hx _ rfl) fun name => h.withTop fun value s' hs' => ?_
    exact .next (hs'.setVariable name value)
  | not =>
    show (s.withTop fun value s => .next (s.push (.bool (!value.isTruthy)))).InCode p
    apply h.withTop
    intro value s' hs'
    exact .next (hs'.congr rfl rfl)
  | pop => exact h.withTop fun _ _ hs' => .next hs'
  | jump =>
    have htarget : k ≤ p.code.size := Nat.le_of_lt_succ (hx _ rfl)
    exact withTarget htarget (.next (h.jump htarget))
  | jumpIfFalse =>
    have htarget : k ≤ p.code.size := Nat.le_of_lt_succ (hx _ rfl)
    refine withTarget htarget (h.withTop fun value s' hs' => .next ?_)
    cases value.isTruthy with
    | true => exact hs'
    | false => exact hs'.jump htarget
  -- A constant that names no function is a fault of the program, but not of the operand.
  | call =>
    refine withConstant (hx _ rfl) fun value => ?_
    cases value with
    | str name => exact h.callNamed hp echo name n
    | int _ | float _ | bool _ => exact .fail h nofun
  | ret => exact h.returnFromCall
  | add => exact h.binary .add
  | sub => exact h.binary .sub
  | mul => exact h.binary .mul
  | div => exact h.binary .div
  | eq => exact h.binary .eq
  | neq => exact h.binary .notEq
  | lt => exact h.binary .lt
  | lte => exact h.binary .ltEq
  | gt => exact h.binary .gt
  | gte => exact h.binary .gtEq
  | and => exact h.binary .and
  | or => exact h.binary .or

/-- Whatever a turn comes to, the machine is still in the code, and it has not failed on an
operand. -/
theorem turn (h : s.InCode p) (hp : p.InRange) (settings : Settings) :
    (p.turn settings s).state.InCode p ∧
      ∀ r s', p.turn settings s = .failed r s' → ¬r.fault.Dangling := by
  unfold Program.turn
  cases hcode : p.code[s.ip]? with
  | none => exact ⟨h, nofun⟩
  | some x =>
    have hbegun : s.begun.InCode p := ⟨Program.lt_size_of_code hcode, h.returnTo⟩
    have hout := hbegun.execute hp settings.echo (hp.operand hcode)
    rw [State.begun] at hout
    dsimp only
    split
    · refine ⟨h, ?_⟩
      rintro _ _ ⟨⟩
      nofun
    · split
      · next s' hs' =>
        rw [hs'] at hout
        exact ⟨hout.state, nofun⟩
      · next s' hs' =>
        rw [hs'] at hout
        exact ⟨hout.state, nofun⟩
      · next fault s' hs' =>
        rw [hs'] at hout
        refine ⟨hout.state, ?_⟩
        rintro _ _ ⟨⟩
        exact hout.fault rfl

/-- All turns of a run stay in the code, by induction on their number. -/
theorem runFor (h : s.InCode p) (hp : p.InRange) (settings : Settings) (n : Nat) :
    (p.runFor settings n s).state.InCode p := by
  induction n generalizing s with
  | zero => exact h
  | succ n ih =>
    have hturn := (h.turn hp settings).1
    by_cases hgo : (p.turn settings s).GoesOn
    · obtain ⟨t, ht⟩ := hgo
      rw [ht] at hturn
      rw [Program.runFor_succ_of_turn ht]
      exact ih hturn
    · rwa [Program.runFor_succ_of_ended hgo]

/-- The start of a run is in the code, and no place to return to is there. -/
theorem initial (p : Program) (input : List UInt8) (globals : Variables) :
    (State.initial input globals).InCode p :=
  ⟨Nat.zero_le _, nofun⟩

end State.InCode

end InCode

/-! ## Sessions -/

/-- The states that a machine comes to when runs are started on it one after the other: a run goes
on for some turns, and when it has ended, with or without a fault, the next one goes on from the
state that it has left. -/
inductive Program.Session (p : Program) (settings : Settings) (start : State) : State → Prop
  | start : Session p settings start start
  | goesOn {s s' : State} {n : Nat} (h : Session p settings start s)
      (hrun : p.runFor settings n s = .next s') : Session p settings start s'
  | ended {s : State} {n : Nat} {t : Turn} (h : Session p settings start s)
      (hrun : p.runFor settings n s = t) (hended : ¬t.GoesOn) : Session p settings start t.state

deriving instance DecidableEq for Program

namespace Program

variable {p : Program} {settings : Settings} {start s : State}

/-- The runs of a session stay in the code, one after the other. -/
theorem Session.inCode (h : p.Session settings start s) (hp : p.InRange)
    (hstart : start.InCode p) : s.InCode p := by
  induction h with
  | start => exact hstart
  | @goesOn s s' n h hrun ih =>
    have hs := ih.runFor hp settings n
    rwa [hrun] at hs
  | @ended s n t h hrun hended ih => exact hrun ▸ ih.runFor hp settings n

/-- In every session of a loaded program the machine stays in its code, and no instruction fails
because its operand points to nothing.  It does not matter how the text of the program is read. -/
theorem session_of_load {codec : Json.Codec} {text : String} (h : load text codec = .ok p)
    (settings : Settings) (input : List UInt8) (globals : Variables)
    (hs : p.Session settings (.initial input globals) s) :
    s.ip ≤ p.code.size ∧ (∀ f ∈ s.frames, f.returnTo ≤ p.code.size) ∧
      ∀ r s', p.turn settings s = .failed r s' → ¬r.fault.Dangling := by
  have hp := inRange_of_load h
  have hcode := hs.inCode hp (.initial p input globals)
  exact ⟨hcode.ip, hcode.returnTo, (hcode.turn hp settings).2⟩

/-- A stored program that goes to the end of its code, and the first call of which has not enough
arguments. -/
def borderlineText : String :=
  "[[[\"CALL\", 0, 1], [\"CALL\", 0, 0], [\"JUMP\", 3, 0]], [\"f\"], [], \x7b\"f\": 3\x7d]"

/-- The program that `borderlineText` stores. -/
def borderline : Program where
  code := #[⟨.call, 0, 1⟩, ⟨.call, 0, 0⟩, ⟨.jump, 3, 0⟩]
  constants := #[.str "f"]
  variableNames := #[]
  functions := ⟨[("f", ⟨3, []⟩)]⟩
  builtins := Builtin.names

/-- The state that the first run of `borderline` leaves, in which its first call has failed. -/
def borderlineFailed : State where
  ip := 1
  stack := []
  frames := []
  globals := .empty
  printed := []
  screen := []
  input := []
  steps := 1

/-- The state that the second run of `borderline` leaves, at the end of the code and in a call. -/
def borderlineEnded : State where
  ip := 3
  stack := []
  frames := [⟨2, .empty, 0⟩]
  globals := .empty
  printed := []
  screen := []
  input := []
  steps := 2

/-- The session of `borderline` goes on after a failed run, and ends at the end of the code. -/
theorem borderline_session :
    load borderlineText .plain = .ok borderline ∧
    borderline.Session ⟨false, none⟩ (.initial [] .empty) borderlineEnded ∧
    borderlineEnded.ip ≤ borderline.code.size ∧
    (∀ f ∈ borderlineEnded.frames, f.returnTo ≤ borderline.code.size) ∧
    ∀ r s', borderline.turn ⟨false, none⟩ borderlineEnded = .failed r s' → ¬r.fault.Dangling := by
  have hload : load borderlineText .plain = .ok borderline := by
    have hsome : (load borderlineText .plain).toOption = some borderline := by decide +kernel
    cases h : load borderlineText .plain with
    | error e =>
      rw [h] at hsome
      cases hsome
    | ok p =>
      rw [h] at hsome
      rw [Option.some.inj hsome]
  have hfirst : borderline.runFor ⟨false, none⟩ 1 (.initial [] .empty) =
      .failed ⟨.stackUnderflow, some ⟨0, "CALL"⟩⟩ borderlineFailed := by with_unfolding_all rfl
  have hsecond : borderline.runFor ⟨false, none⟩ 2 borderlineFailed = .done borderlineEnded := by
    with_unfolding_all rfl
  have hstart : borderline.Session ⟨false, none⟩ (.initial [] .empty) (.initial [] .empty) := .start
  have hfailed : borderline.Session ⟨false, none⟩ (.initial [] .empty) borderlineFailed :=
    hstart.ended hfirst (by rintro ⟨s, ⟨⟩⟩)
  have hended : borderline.Session ⟨false, none⟩ (.initial [] .empty) borderlineEnded :=
    hfailed.ended hsecond (by rintro ⟨s, ⟨⟩⟩)
  exact ⟨hload, hended, session_of_load hload ⟨false, none⟩ [] .empty hended⟩

end Program

end Scriptlet
