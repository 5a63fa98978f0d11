import Scriptlet.Proofs.Effects

/-!
# The stack is balanced in every run

In every state that a run comes to, the call at hand has as many values on the stack as the note of
the next instruction says, and every call that waits will find the stack as its own note says when
its callee comes back (`Balanced`).  A turn keeps this, so all runs do.
-/

namespace Scriptlet

/-- The height of the stack below the call at hand. -/
def baseOf : List Frame → Nat
  | [] => 0
  | frame :: _ => frame.base

/-- The height of the stack below the call at hand. -/
def State.base (s : State) : Nat := baseOf s.frames

/-- The height of the stack agrees with the note of the next instruction, and so it will for every
call that waits once its callee has put its result on the stack. -/
def Balanced (p : Program) (note : Nat → Note) : List Frame → Nat → Nat → Prop
  | [], ip, height => ip ≤ p.code.size ∧ (note ip).inside = false ∧ height = (note ip).depth
  | frame :: frames, ip, height =>
    ip ≤ p.code.size ∧ (note ip).inside = true ∧ height = frame.base + (note ip).depth ∧
      baseOf frames ≤ frame.base ∧ Balanced p note frames frame.returnTo (frame.base + 1)

/-- The stack of a state is balanced. -/
def State.Balanced (s : State) (p : Program) (note : Nat → Note) : Prop :=
  Scriptlet.Balanced p note s.frames s.ip s.stack.length

section Balanced

variable {p : Program} {note : Nat → Note} {frames : List Frame} {ip height : Nat}

theorem Balanced.le_size (h : Balanced p note frames ip height) : ip ≤ p.code.size := by
  cases frames with
  | nil => exact h.1
  | cons frame frames => exact h.1

theorem Balanced.height_eq (h : Balanced p note frames ip height) :
    height = baseOf frames + (note ip).depth := by
  cases frames with
  | nil => rw [baseOf, Nat.zero_add]; exact h.2.2
  | cons frame frames => exact h.2.2.1

/-- The machine is in a function exactly if there is a call. -/
theorem Balanced.inside_eq (h : Balanced p note frames ip height) :
    (note ip).inside = !frames.isEmpty := by
  cases frames with
  | nil => exact h.2.1
  | cons frame frames => exact h.2.1

/-- The call at hand goes on elsewhere in the same function. -/
theorem Balanced.move {ip' height' : Nat} (h : Balanced p note frames ip height)
    (hsize : ip' ≤ p.code.size) (hinside : (note ip').inside = (note ip).inside)
    (hheight : height' + (note ip).depth = height + (note ip').depth) :
    Balanced p note frames ip' height' := by
  cases frames with
  | nil =>
    obtain ⟨-, hin, hh⟩ := h
    exact ⟨hsize, hinside.trans hin, by omega⟩
  | cons frame frames =>
    obtain ⟨-, hin, hh, hrest⟩ := h
    exact ⟨hsize, hinside.trans hin, by omega, hrest⟩

/-- Every call that waits goes on with one value more than the height of its callee. -/
theorem Balanced.of_suffix (h : Balanced p note frames ip height) {frame : Frame}
    {rest : List Frame} (hs : frame :: rest <:+ frames) :
    baseOf rest ≤ frame.base ∧ Balanced p note rest frame.returnTo (frame.base + 1) := by
  induction frames generalizing ip height with
  | nil => exact absurd hs (by simp)
  | cons f frames ih =>
    rcases List.suffix_cons_iff.mp hs with heq | hs
    · cases heq
      exact h.2.2.2
    · exact ih h.2.2.2.2 hs

/-- The bases of calls grow towards the call at hand. -/
theorem Balanced.base_le (h : Balanced p note frames ip height) {frame : Frame}
    {rest : List Frame} (hs : frame :: rest <:+ frames) : frame.base ≤ baseOf frames := by
  induction frames generalizing ip height with
  | nil => exact absurd hs (by simp)
  | cons f frames ih =>
    rcases List.suffix_cons_iff.mp hs with heq | hs
    · cases heq
      exact Nat.le_refl _
    · exact Nat.le_trans (ih h.2.2.2.2 hs) h.2.2.2.1

variable {s s' : State}

/-- The variables of the call at hand do not matter. -/
theorem balanced_of_context (h : s'.context = s.context)
    (hb : Balanced p note s.frames ip height) : Balanced p note s'.frames ip height := by
  cases hf : s.frames with
  | nil =>
    rwa [State.frames_eq_nil_of_context h hf, ← hf]
  | cons frame frames =>
    obtain ⟨vars, hf'⟩ := State.frames_of_context h hf
    rw [hf] at hb
    rw [hf']
    exact hb

end Balanced

/-! ## Turns in a balanced state -/

/-- What a turn can come to in a balanced state. -/
inductive Program.Turned (p : Program) (s : State) : Turn → Prop
  /-- The code is at its end. -/
  | finished (hip : s.ip = p.code.size) : Turned p s (.done s)
  /-- The step limit is used up. -/
  | stopped {limit : Nat} {site : Option FaultSite} :
      Turned p s (.failed ⟨.stepLimitExceeded limit, site⟩ s)
  | next {x : Instruction} {s' : State} (hcode : p.code[s.ip]? = some x)
      (heffect : p.Effect x s (.next s')) : Turned p s (.next s')
  | halted {x : Instruction} {s' : State} (hcode : p.code[s.ip]? = some x)
      (heffect : p.Effect x s (.halt s')) : Turned p s (.done s')
  | failed {x : Instruction} {cause : Fault} {site : Option FaultSite} {s' : State}
      (hcode : p.code[s.ip]? = some x) (heffect : p.Effect x s (.fail cause s')) :
      Turned p s (.failed ⟨cause, site⟩ s')

namespace Program.Noted

variable {p : Program} {note : Nat → Note} {placed : List Placed} {settings : Settings}
  {s s' : State}

/-- The instruction at hand does not take more values than the call at hand has. -/
theorem takes_le (hp : p.Noted note placed) (hb : s.Balanced p note) {x : Instruction}
    (hcode : p.code[s.ip]? = some x) : x.takes + s.base ≤ s.stack.length := by
  have hheight := hb.height_eq
  have htakes := (hp.fits hcode).takes
  rw [State.base]
  omega

theorem turned (hp : p.Noted note placed) (hb : s.Balanced p note) (settings : Settings) :
    p.Turned s (p.turn settings s) := by
  unfold Program.turn
  cases hcode : p.code[s.ip]? with
  | none =>
    have hle := hb.le_size
    have hge := Array.getElem?_eq_none_iff.mp hcode
    exact .finished (by omega)
  | some x =>
    cases hlimit : limitReached? settings s with
    | some limit => exact .stopped
    | none =>
      have htakes := hp.takes_le hb hcode
      have heffect : p.Effect x s (p.execute settings.echo x s.begun) :=
        (hp.fits hcode).effect settings.echo (by omega) fun h => (hp.entry h).1
      have hbegun : ({ s with ip := s.ip + 1, steps := s.steps + 1 } : State) = s.begun := rfl
      simp only [hbegun]
      cases ho : p.execute settings.echo x s.begun with
      | next s' => exact .next hcode (ho ▸ heffect)
      | halt s' => exact .halted hcode (ho ▸ heffect)
      | fail cause s' => exact .failed hcode (ho ▸ heffect)

/-- A turn that goes on is the effect of the instruction at hand. -/
theorem effect_of_turn (hp : p.Noted note placed) (hb : s.Balanced p note)
    (h : p.turn settings s = .next s') :
    ∃ x, p.code[s.ip]? = some x ∧ p.Effect x s (.next s') := by
  have hturned := hp.turned hb settings
  rw [h] at hturned
  cases hturned with
  | next hcode heffect => exact ⟨_, hcode, heffect⟩

/-- A turn keeps the stack balanced. -/
theorem balanced_turn (hp : p.Noted note placed) (hb : s.Balanced p note)
    (h : p.turn settings s = .next s') : s'.Balanced p note := by
  obtain ⟨x, hcode, heffect⟩ := hp.effect_of_turn hb h
  have hfits := hp.fits hcode
  have htakes := hp.takes_le hb hcode
  cases heffect with
  | step given hcontext hip hgiven hstack =>
    obtain ⟨hsize, hleads⟩ := hfits.next _ hip
    refine balanced_of_context hcontext (hb.move hsize hleads.inside ?_)
    have hdepth := hleads.depth
    rw [hstack, List.length_append, List.length_drop, hgiven]
    omega
  | @enter name entry hop hname hbuiltin hentry =>
    -- The caller will go on behind the call, with one value in the place of the arguments.
    have harg : x.takes = x.arg2 := by rw [Instruction.takes, hop]
    have hgives : x.gives = 1 := by rw [Instruction.gives, hop]
    have hnext : s.ip + 1 ∈ x.successors s.ip := by
      rw [Instruction.successors, hop]
      exact List.mem_singleton.mpr rfl
    obtain ⟨hsize, hleads⟩ := hfits.next _ hnext
    obtain ⟨hentrySize, hrest⟩ := hp.entry hentry
    have hdepth := hleads.depth
    refine ⟨hentrySize, by rw [hrest]; rfl, by rw [hrest]; rfl, ?_, ?_⟩
    · rw [State.base] at htakes
      simp only [List.length_drop]
      omega
    · refine hb.move hsize hleads.inside ?_
      simp only [List.length_drop]
      omega
  | @leave frame frames hop hframes =>
    have hbal : Balanced p note (frame :: frames) s.ip s.stack.length := hframes ▸ hb
    have hheight := hbal.height_eq
    show Balanced p note frames frame.returnTo (List.length (_ :: _))
    rw [List.length_cons, List.length_drop]
    have hbase : s.stack.length - (s.stack.length - frame.base) = frame.base := by
      rw [baseOf] at hheight
      omega
    rw [hbase]
    exact hbal.2.2.2.2

/-- All states of a run from a balanced state are balanced. -/
theorem balanced_run (hp : p.Noted note placed) (hb : s.Balanced p note) {n : Nat}
    (h : p.runFor settings n s = .next s') : s'.Balanced p note :=
  runFor_invariant (I := fun s => s.Balanced p note) (fun hb h => hp.balanced_turn hb h) hb h

/-- A run starts with a balanced stack. -/
theorem balanced_initial (hp : p.Noted note placed) (input : List UInt8) (globals : Variables) :
    (State.initial input globals).Balanced p note := by
  refine ⟨Nat.zero_le _, ?_, ?_⟩
  · rw [show (State.initial input globals).ip = 0 from rfl, hp.start]
    rfl
  · rw [show (State.initial input globals).ip = 0 from rfl, hp.start]
    rfl

/-! ## Where a run can end -/

/-- At the end of the code no call is active, and nothing is left on the stack. -/
theorem rest_of_end (hp : p.Noted note placed) (hb : s.Balanced p note)
    (hip : s.ip = p.code.size) : s.stack = [] ∧ s.frames = [] := by
  -- The end of the code lies outside of all functions, at rest.
  have hheight := hb.height_eq
  have hinside := hb.inside_eq
  rw [hip, hp.finish] at hheight hinside
  have hframes : s.frames = [] := by simpa [Note.rest] using hinside
  rw [hframes] at hheight
  exact ⟨List.eq_nil_of_length_eq_zero hheight, hframes⟩

/-- If all returns are written in functions, a return always ends an active call. -/
theorem frames_ne_nil_of_ret (hp : p.Noted note placed)
    (hreturns : ∀ x ∈ placed, ∀ span value, x.stmt = .returnStmt span value → x.inside = true)
    (hb : s.Balanced p note) {x : Instruction} (hcode : p.code[s.ip]? = some x)
    (hop : x.op = .ret) : s.frames ≠ [] := by
  intro hframes
  have hinside := hb.inside_eq
  rw [hframes] at hinside
  obtain ⟨span, value, a, hmem⟩ := (hp.fits hcode).outside hop hinside
  cases hreturns _ hmem span value rfl

/-! ## Calls leave the stack of their callers alone -/

/-- Whatever a turn comes to, the values below the call at hand stay where they are. -/
theorem below_suffix (hp : p.Noted note placed) (hb : s.Balanced p note) (settings : Settings) :
    s.stack.drop (note s.ip).depth <:+ (p.turn settings s).state.stack := by
  have hdrop : ∀ {x : Instruction}, p.code[s.ip]? = some x →
      s.stack.drop (note s.ip).depth <:+ s.stack.drop x.takes := fun hcode =>
    List.drop_suffix_drop_left _ (hp.fits hcode).takes
  have hturned := hp.turned hb settings
  generalize p.turn settings s = t at hturned ⊢
  cases hturned with
  | finished hip => exact List.drop_suffix ..
  | stopped => exact List.drop_suffix ..
  | next hcode heffect =>
    cases heffect with
    | step given hcontext hip hgiven hstack =>
      rw [Turn.state, hstack]
      exact (hdrop hcode).trans (List.suffix_append ..)
    | @enter name entry hop hname hbuiltin hentry =>
      have harg := hdrop hcode
      rwa [Instruction.takes, hop] at harg
    | @leave frame frames hop hframes =>
      have hheight := hb.height_eq
      rw [hframes, baseOf] at hheight
      -- A return drops just the values of the call.
      have hdepth : (note s.ip).depth = s.stack.length - frame.base := by omega
      rw [hdepth]
      exact List.suffix_cons ..
  | halted hcode heffect =>
    cases heffect with
    | halt => exact List.drop_suffix ..
  | failed hcode heffect =>
    cases heffect with
    | fault hop hcause => exact hdrop hcode
    | unknown => exact List.drop_suffix ..

end Program.Noted

/-- The machine works on a call that was made above a given stack and given calls, or on calls made
from it. -/
def State.Within (s : State) (returnTo : Nat) (stack : List Value) (frames : List Frame) : Prop :=
  ∃ inner frame, s.frames = inner ++ frame :: frames ∧ frame.returnTo = returnTo ∧
    frame.base = stack.length ∧ stack <:+ s.stack

/-- A call is over: the machine goes on where it was called, with its result on top of the stack. -/
def State.Back (s : State) (returnTo : Nat) (stack : List Value) (frames : List Frame) : Prop :=
  s.ip = returnTo ∧ s.frames = frames ∧ ∃ v, s.stack = v :: stack

theorem State.Within.lt_length {s : State} {returnTo : Nat} {stack : List Value}
    {frames : List Frame} (h : s.Within returnTo stack frames) :
    frames.length < s.frames.length := by
  obtain ⟨inner, frame, hframes, -⟩ := h
  rw [hframes, List.length_append, List.length_cons]
  omega

namespace Program.Noted

variable {p : Program} {note : Nat → Note} {placed : List Placed} {settings : Settings}
  {s s' : State} {returnTo : Nat} {stack : List Value} {frames : List Frame}

/-- As long as a call lasts, a turn leaves the stack below it alone. -/
theorem within_turn (hp : p.Noted note placed) (hb : s.Balanced p note)
    (hw : s.Within returnTo stack frames) (h : p.turn settings s = .next s') :
    s'.Within returnTo stack frames ∨ s'.Back returnTo stack frames := by
  obtain ⟨inner, frame, hframes, hreturn, hbase, hsuffix⟩ := hw
  have hkept : stack <:+ s'.stack := by
    -- The stack below the call lies below the call at hand, too.
    have hle : frame.base ≤ s.base := hb.base_le (hframes ▸ List.suffix_append ..)
    have hheight := hb.height_eq
    have hbelow := hp.below_suffix hb settings
    rw [h] at hbelow
    refine List.IsSuffix.trans ?_ hbelow
    refine List.suffix_of_suffix_length_le hsuffix (List.drop_suffix ..) ?_
    rw [List.length_drop]
    rw [State.base] at hle
    omega
  obtain ⟨x, hcode, heffect⟩ := hp.effect_of_turn hb h
  cases heffect with
  | step given hcontext hip hgiven hstack =>
    left
    cases inner with
    | nil =>
      obtain ⟨vars, hframes'⟩ := State.frames_of_context hcontext hframes
      exact ⟨[], _, hframes', hreturn, hbase, hkept⟩
    | cons f inner =>
      obtain ⟨vars, hframes'⟩ := State.frames_of_context hcontext hframes
      exact ⟨_ :: inner, frame, hframes', hreturn, hbase, hkept⟩
  | @enter name entry hop hname hbuiltin hentry =>
    exact .inl ⟨_ :: inner, frame, congrArg (List.cons _) hframes, hreturn, hbase, hkept⟩
  | @leave f fs hop hfs =>
    rw [hframes] at hfs
    cases inner with
    | nil =>
      right
      cases hfs
      have hdrop : s.stack.drop (s.stack.length - frame.base) = stack := by
        obtain ⟨above, habove⟩ := hsuffix
        rw [hbase, ← habove, List.length_append, Nat.add_sub_cancel, List.drop_left]
      exact ⟨hreturn, rfl, _, congrArg (List.cons _) hdrop⟩
    | cons g inner =>
      left
      cases hfs
      exact ⟨inner, frame, rfl, hreturn, hbase, hkept⟩

/-- As long as a call lasts, a run leaves the stack below it alone. -/
theorem within_run (hp : p.Noted note placed) (hb : s.Balanced p note)
    (hw : s.Within returnTo stack frames) {n : Nat} (h : p.runFor settings n s = .next s')
    (hlasts : ∀ j t, j ≤ n → p.runFor settings j s = .next t → frames.length < t.frames.length) :
    s'.Within returnTo stack frames := by
  induction n generalizing s with
  | zero =>
    cases h
    exact hw
  | succ n ih =>
    obtain ⟨t, ht, hrest⟩ := exists_turn_of_runFor_succ h
    have hshift : ∀ j u, p.runFor settings j t = .next u → p.runFor settings (j + 1) s = .next u :=
      fun j u hu => by rw [runFor_succ_of_turn ht, hu]
    rcases hp.within_turn hb hw ht with hw' | hback
    · exact ih (hp.balanced_turn hb ht) hw' hrest fun j u hj hu =>
        hlasts (j + 1) u (by omega) (hshift j u hu)
    · have := hlasts 1 t (by omega) (hshift 0 t rfl)
      rw [hback.2.1] at this
      omega

/-- When a call comes back for the first time, it has left the stack below it alone. -/
theorem back_run (hp : p.Noted note placed) (hb : s.Balanced p note)
    (hw : s.Within returnTo stack frames) {n : Nat} (h : p.runFor settings n s = .next s')
    (hlasts : ∀ j t, j < n → p.runFor settings j s = .next t → frames.length < t.frames.length)
    (hover : s'.frames.length ≤ frames.length) : s'.Back returnTo stack frames := by
  cases n with
  | zero =>
    cases h
    have := hw.lt_length
    omega
  | succ n =>
    obtain ⟨t, ht, hlast⟩ := exists_last_turn h
    have hwt := hp.within_run hb hw ht fun j u hj hu => hlasts j u (by omega) hu
    rcases hp.within_turn (hp.balanced_run hb ht) hwt hlast with hw' | hback
    · have := hw'.lt_length
      omega
    · exact hback

end Program.Noted

end Scriptlet
