import Scriptlet.Proofs.Moves

/-!
# Calls are isolated

Once a call has been entered, nothing that happens before it is left again changes a variable
outside all calls, or anything of the calls that wait for it.  When it is left, the machine goes on
behind the call with exactly what the caller had (`Program.turn_isolated`).  This does not depend on
where the program comes from: its code may jump from one function into another, and its instructions
may fail.
-/

namespace Scriptlet

namespace Program

variable {p : Program} {settings : Settings} {s t : State} {n : Nat}

/-! ## Instructions one after the other -/

/-- The state after a number of instructions, whatever comes of them: behind one that fails or ends
the run, the machine goes on when the next run is started. -/
def after (p : Program) (settings : Settings) : Nat → State → State
  | 0, s => s
  | n + 1, s => p.after settings n (p.turn settings s).state

theorem after_succ (p : Program) (settings : Settings) (n : Nat) (s : State) :
    p.after settings (n + 1) s = (p.turn settings (p.after settings n s)).state := by
  induction n generalizing s with
  | zero => rfl
  | succ n ih =>
    rw [after, ih]
    rfl

/-! ## The frame of a call -/

/-- A call is active: its frame lies directly above those of the calls that wait for it.  Since it
was entered its own variables may have changed, but none of those outside all calls. -/
def Active (frame : Frame) (outer : List Frame) (globals : Variables) (s : State) : Prop :=
  s.globals = globals ∧ ∃ inner locals, s.frames = inner ++ { frame with locals := locals } :: outer

/-- A call is over: the machine is behind it, and the caller has what it had. -/
def Left (frame : Frame) (outer : List Frame) (globals : Variables) (s : State) : Prop :=
  s.ip = frame.returnTo ∧ s.frames = outer ∧ s.globals = globals

variable {frame : Frame} {outer : List Frame} {globals : Variables}

theorem Active.lt_length (h : Active frame outer globals s) :
    outer.length < s.frames.length := by
  obtain ⟨-, inner, locals, hframes⟩ := h
  rw [hframes, List.length_append, List.length_cons]
  omega

theorem Active.congr (h : Active frame outer globals s) (hframes : t.frames = s.frames)
    (hglobals : t.globals = s.globals) : Active frame outer globals t :=
  ⟨hglobals.trans h.1, hframes ▸ h.2⟩

/-- As long as there is a call, a variable is written in the frame of the innermost one. -/
theorem Active.setVariable (h : Active frame outer globals s) (name : String) (value : Value) :
    Active frame outer globals (s.setVariable name value) := by
  obtain ⟨hglobals, inner, locals, hframes⟩ := h
  unfold State.setVariable
  cases inner with
  | nil =>
    rw [hframes]
    exact ⟨hglobals, [], locals.insert name value, rfl⟩
  | cons f inner =>
    rw [hframes]
    exact ⟨hglobals, { f with locals := f.locals.insert name value } :: inner, locals, rfl⟩

/-- Whatever an instruction comes to, it leaves the calls below an active one alone, and only a
return ends that call. -/
theorem Active.turn (h : Active frame outer globals s) (settings : Settings) :
    Active frame outer globals (p.turn settings s).state ∨
      Left frame outer globals (p.turn settings s).state ∧
        ∃ x, p.code[s.ip]? = some x ∧ x.op = .ret := by
  by_cases hgo : (p.turn settings s).GoesOn
  · obtain ⟨s', hs'⟩ := hgo
    obtain ⟨x, hcode, hmoves⟩ := moves_of_turn hs'
    rw [hs']
    show Active frame outer globals s' ∨ Left frame outer globals s' ∧ _
    cases hmoves with
    | on hop hip hframes hglobals => exact .inl (h.congr hframes hglobals)
    | @store name v hop hname hip hframes hglobals =>
      exact .inl ((h.setVariable name v).congr hframes hglobals)
    | enter hop hname hbuiltin hentry hip hframes hglobals =>
      left
      obtain ⟨hsame, inner, locals, hs⟩ := h
      exact ⟨hglobals.trans hsame, _ :: inner, locals, by rw [hframes, hs]; rfl⟩
    | leave hop hframes hip hglobals =>
      obtain ⟨hsame, inner, locals, hs⟩ := h
      rw [hs] at hframes
      cases inner with
      | nil =>
        -- The frame of the call itself is taken away.
        obtain ⟨rfl, houter⟩ := List.cons.inj hframes
        exact .inr ⟨⟨hip, houter.symm, hglobals.trans hsame⟩, x, hcode, hop⟩
      | cons f inner =>
        obtain ⟨-, hrest⟩ := List.cons.inj hframes
        exact .inl ⟨hglobals.trans hsame, inner, locals, hrest.symm⟩
  · obtain ⟨hframes, hglobals⟩ := stays_of_ended hgo
    exact .inl (h.congr hframes hglobals)

/-- A call stays active as long as it is not left. -/
theorem Active.after (h : Active frame outer globals s)
    (hlasts : ∀ j ≤ n, outer.length < (p.after settings j s).frames.length) :
    Active frame outer globals (p.after settings n s) := by
  induction n with
  | zero => exact h
  | succ n ih =>
    have hn := ih fun j hj => hlasts j (Nat.le_succ_of_le hj)
    have hlevel := hlasts (n + 1) (Nat.le_refl _)
    rw [after_succ] at hlevel ⊢
    rcases hn.turn settings with hactive | ⟨⟨-, hframes, -⟩, -⟩
    · exact hactive
    · rw [hframes] at hlevel
      exact absurd hlevel (Nat.lt_irrefl _)

/-- A turn that adds a frame is a call, and puts one frame on top of the others. -/
theorem active_of_turn (hturn : p.turn settings s = .next t)
    (hcall : s.frames.length < t.frames.length) :
    (∃ x, p.code[s.ip]? = some x ∧ x.op = .call) ∧
      ∃ frame, t.frames = frame :: s.frames ∧ t.globals = s.globals ∧
        frame.returnTo = s.ip + 1 := by
  obtain ⟨x, hcode, hmoves⟩ := moves_of_turn hturn
  cases hmoves with
  | on hop hip hframes hglobals =>
    rw [hframes] at hcall
    exact absurd hcall (Nat.lt_irrefl _)
  | @store name v hop hname hip hframes hglobals =>
    rw [hframes, State.length_frames_of_context (State.context_setVariable s name v)] at hcall
    exact absurd hcall (Nat.lt_irrefl _)
  | enter hop hname hbuiltin hentry hip hframes hglobals =>
    exact ⟨⟨x, hcode, hop⟩, _, hframes, hglobals, rfl⟩
  | leave hop hframes hip hglobals =>
    rw [hframes, List.length_cons] at hcall
    omega

/-- Calls are isolated.  A turn of any program that adds a frame is a call.  As long as at least as
many calls are active as then, the variables outside all calls and the frames of the calls that wait
are what they were before the call.  The instruction after which there are fewer is a return, and
the machine then is behind the call, with the frames and the variables that it had before. -/
theorem turn_isolated {p : Program} {settings : Settings} {s t : State}
    (hturn : p.turn settings s = .next t) (hcall : s.frames.length < t.frames.length) :
    (∃ x, p.code[s.ip]? = some x ∧ x.op = .call) ∧
    t.frames.length = s.frames.length + 1 ∧
    ∀ n, (∀ j ≤ n, t.frames.length ≤ (p.after settings j t).frames.length) →
      ((p.after settings n t).globals = s.globals ∧
        ∃ inner frame, (p.after settings n t).frames = inner ++ frame :: s.frames ∧
          frame.returnTo = s.ip + 1) ∧
      ((p.after settings (n + 1) t).frames.length < t.frames.length →
        (∃ x, p.code[(p.after settings n t).ip]? = some x ∧ x.op = .ret) ∧
        (p.after settings (n + 1) t).ip = s.ip + 1 ∧
        (p.after settings (n + 1) t).frames = s.frames ∧
        (p.after settings (n + 1) t).globals = s.globals) := by
  obtain ⟨hop, frame, hframes, hglobals, hreturn⟩ := active_of_turn hturn hcall
  have hlength : t.frames.length = s.frames.length + 1 := by
    rw [hframes, List.length_cons]
  refine ⟨hop, hlength, fun n hlasts => ?_⟩
  have hentered : Active frame s.frames s.globals t := ⟨hglobals, [], frame.locals, hframes⟩
  -- The call stays active for as long as the calls are no fewer than behind the turn.
  have hactive : Active frame s.frames s.globals (p.after settings n t) := by
    refine hentered.after fun j hj => ?_
    have := hlasts j hj
    omega
  constructor
  · obtain ⟨hsame, inner, locals, hn⟩ := hactive
    exact ⟨hsame, inner, { frame with locals := locals }, hn, hreturn⟩
  · intro hover
    rw [after_succ] at hover ⊢
    rcases hactive.turn (p := p) settings with hstill | ⟨⟨hip, houter, hsame⟩, hret⟩
    · have := hstill.lt_length
      omega
    · exact ⟨hret, hip.trans hreturn, houter, hsame⟩

/-- A program whose function takes an operand of its caller and stores it under the name of a
variable that the caller has. -/
def taking : Program where
  code := #[⟨.loadConst, 1, 0⟩, ⟨.call, 0, 0⟩, ⟨.nop, 0, 0⟩, ⟨.storeVar, 0, 0⟩, ⟨.ret, 0, 0⟩]
  constants := #[.str "take", .bool true]
  variableNames := #["x"]
  functions := ⟨[("take", ⟨3, []⟩)]⟩
  builtins := Builtin.names

/-- The state of `taking` before its call, with a value for the variable. -/
def takingBefore : State where
  ip := 1
  stack := [.bool true]
  frames := []
  globals := ⟨[("x", .bool false)]⟩
  printed := []
  screen := []
  input := []
  steps := 1

/-- The state of `taking` at the start of its function. -/
def takingInside : State :=
  { takingBefore with ip := 3, frames := [⟨2, ⟨[]⟩, 1⟩], steps := 2 }

/-- The variable of the caller has its value when the function has returned. -/
theorem taking_isolated :
    taking.turn {} takingBefore = .next takingInside ∧
    (taking.after {} 1 takingInside).frames = [⟨2, ⟨[("x", .bool true)]⟩, 1⟩] ∧
    (taking.after {} 2 takingInside).ip = 2 ∧
    (taking.after {} 2 takingInside).frames = [] ∧
    (taking.after {} 2 takingInside).globals = ⟨[("x", .bool false)]⟩ := by
  have hturn : taking.turn {} takingBefore = .next takingInside := by with_unfolding_all rfl
  have hinside : (taking.after {} 1 takingInside).frames = [⟨2, ⟨[("x", .bool true)]⟩, 1⟩] := by
    with_unfolding_all rfl
  have hlasts : ∀ j ≤ 1,
      takingInside.frames.length ≤ (taking.after {} j takingInside).frames.length := by
    intro j hj
    obtain rfl | rfl : j = 0 ∨ j = 1 := by omega
    · exact Nat.le_refl _
    · rw [hinside]
      exact Nat.le_refl _
  obtain ⟨-, -, hisolated⟩ := turn_isolated hturn (by decide)
  obtain ⟨-, hreturned⟩ := hisolated 1 hlasts
  obtain ⟨-, hip, hframes, hglobals⟩ := hreturned (by with_unfolding_all decide)
  exact ⟨hturn, hinside, hip, hframes, hglobals⟩

end Program

end Scriptlet
