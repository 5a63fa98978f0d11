import Scriptlet.Proofs.Balance

/-!
# Stack discipline of generated programs

The height of the stack at every instruction is known from the module alone.  No instruction reaches
below the call it belongs to, a call that comes back leaves the stack of its caller as it was with
one result in the place of the arguments, and a `return` gives the value that its own expression has
put on the stack, or null if it has none (`Module.generate_disciplined`).
-/

namespace Scriptlet

/-! ## Since when the machine has worked on the code at hand -/

section History

variable (p : Program) (settings : Settings) (start : State)

/-- Between two numbers of turns of a run, calls have not come back beyond a level, and the machine
was between two offsets whenever it was on that level. -/
def Program.StaysBetween (k n level first last : Nat) : Prop :=
  ∀ j t, k ≤ j → j ≤ n → p.runFor settings j start = .next t →
    level ≤ t.frames.length ∧ (t.frames.length = level → first ≤ t.ip ∧ t.ip ≤ last)

/-- The machine was at an offset on a level of calls, and has since then stayed between it and
another. -/
def Program.Since (n level first last : Nat) : Prop :=
  ∃ k s, k ≤ n ∧ p.runFor settings k start = .next s ∧ s.ip = first ∧ s.frames.length = level ∧
    p.StaysBetween settings start k n level first last

/-- The machine has worked on the code at hand, and on that of every waiting call, since it was at
the beginning of that code. -/
def Program.Began (note : Nat → Note) (n : Nat) : List Frame → Nat → Prop
  | [], ip => p.Since settings start n 0 (note ip).home ip
  | frame :: frames, ip =>
    p.Since settings start n (frames.length + 1) (note ip).home ip ∧
      Program.Began note n frames frame.returnTo

end History

section Began

variable {p : Program} {settings : Settings} {start s s' : State} {note : Nat → Note}
  {n level first last : Nat}

namespace Program

/-- At the beginning of some code. -/
theorem Since.anew (h : p.runFor settings n start = .next s) :
    p.Since settings start n s.frames.length s.ip s.ip := by
  refine ⟨n, s, Nat.le_refl n, h, rfl, rfl, fun j t hj hj' ht => ?_⟩
  obtain rfl : j = n := by omega
  rw [h] at ht
  cases ht
  exact ⟨Nat.le_refl _, fun _ => ⟨Nat.le_refl _, Nat.le_refl _⟩⟩

/-- One more turn, which ends on a level further in or not far behind. -/
theorem Since.turn (h : p.Since settings start n level first last) {last' : Nat}
    (hrun : p.runFor settings (n + 1) start = .next s') (hlast : last ≤ last')
    (hlevel : level ≤ s'.frames.length)
    (hip : s'.frames.length = level → last ≤ s'.ip ∧ s'.ip ≤ last') :
    p.Since settings start (n + 1) level first last' := by
  obtain ⟨k, s, hk, hs, hfirst, hsame, hstays⟩ := h
  refine ⟨k, s, by omega, hs, hfirst, hsame, fun j t hj hj' ht => ?_⟩
  have hle : first ≤ last := by
    have := (hstays k s (Nat.le_refl k) hk hs).2 hsame
    omega
  rcases Nat.lt_or_ge n j with hnj | hnj
  · obtain rfl : j = n + 1 := by omega
    rw [hrun] at ht
    cases ht
    exact ⟨hlevel, fun heq => ⟨Nat.le_trans hle (hip heq).1, (hip heq).2⟩⟩
  · have := hstays j t hj hnj ht
    exact ⟨this.1, fun heq => ⟨(this.2 heq).1, Nat.le_trans (this.2 heq).2 hlast⟩⟩

theorem Began.since {frames : List Frame} {ip : Nat}
    (h : p.Began settings start note n frames ip) :
    p.Since settings start n frames.length (note ip).home ip := by
  cases frames with
  | nil => exact h
  | cons frame frames => exact h.1

/-- Waiting calls keep waiting while the machine is on a level further in. -/
theorem Began.wait {frames : List Frame} {ip : Nat}
    (h : p.Began settings start note n frames ip)
    (hrun : p.runFor settings (n + 1) start = .next s')
    (hlevel : frames.length < s'.frames.length) :
    p.Began settings start note (n + 1) frames ip := by
  induction frames generalizing ip with
  | nil => exact Since.turn h hrun (Nat.le_refl _) (Nat.zero_le _) fun heq => by omega
  | cons frame frames ih =>
    rw [List.length_cons] at hlevel
    refine ⟨h.1.turn hrun (Nat.le_refl _) (by omega) fun heq => by omega, ?_⟩
    exact ih h.2 (by omega)

/-- A call is at another offset, and the calls that wait for it are the same. -/
theorem Began.renew {frames : List Frame} {ip ip' : Nat}
    (h : p.Began settings start note n frames ip)
    (hrun : p.runFor settings (n + 1) start = .next s') (hlevel : frames.length ≤ s'.frames.length)
    (hsince : p.Since settings start (n + 1) frames.length (note ip').home ip') :
    p.Began settings start note (n + 1) frames ip' := by
  cases frames with
  | nil => exact hsince
  | cons frame frames => exact ⟨hsince, h.2.wait hrun hlevel⟩

/-- The variables of the call at hand do not matter. -/
theorem Began.of_context {ip : Nat} (h : p.Began settings start note n s.frames ip)
    (hcontext : s'.context = s.context) : p.Began settings start note n s'.frames ip := by
  cases hf : s.frames with
  | nil => rwa [State.frames_eq_nil_of_context hcontext hf, ← hf]
  | cons frame frames =>
    obtain ⟨vars, hf'⟩ := State.frames_of_context hcontext hf
    rw [hf] at h
    rw [hf']
    exact h

end Program

end Began

namespace Program.Noted

variable {p : Program} {note : Nat → Note} {placed : List Placed} {settings : Settings}
  {start s s' : State} {n : Nat}

/-- A turn leaves the machine in the code at hand, at the beginning of other code, in a function it
has called, or back in the code from which it was called. -/
theorem began_turn (hp : p.Noted note placed) (hb : s.Balanced p note)
    (h : p.Began settings start note n s.frames s.ip)
    (hrun : p.runFor settings (n + 1) start = .next s') (hturn : p.turn settings s = .next s') :
    p.Began settings start note (n + 1) s'.frames s'.ip := by
  obtain ⟨x, hcode, heffect⟩ := hp.effect_of_turn hb hturn
  have hfits := hp.fits hcode
  have hsince := h.since
  cases heffect with
  | step given hcontext hip hgiven hstack =>
    have hlen := State.length_frames_of_context hcontext
    refine (h.of_context hcontext).renew hrun (Nat.le_refl _) ?_
    obtain ⟨-, hleads⟩ := hfits.next _ hip
    -- The next instruction goes on with the same expression, or it is a statement boundary.
    rcases hleads.home with ⟨hnext, hhome⟩ | hhome
    · rw [hhome, hlen]
      exact hsince.turn hrun (by omega) (by omega) fun _ => ⟨by omega, Nat.le_refl _⟩
    · rw [hhome]
      exact .anew hrun
  | @enter name entry hop hname hbuiltin hentry =>
    obtain ⟨-, hrest⟩ := hp.entry hentry
    have hhome : (note entry.offset).home = entry.offset := by rw [hrest]; rfl
    refine ⟨?_, h.renew hrun (Nat.le_succ _) ?_⟩
    · simp only [hhome]
      exact .anew hrun
    · -- The caller waits, and has come as far as the instruction behind the call.
      rw [(hfits.call hop).1]
      refine hsince.turn hrun (Nat.le_succ _) (Nat.le_succ _) fun heq => ?_
      exact absurd heq (Nat.succ_ne_self _)
  | @leave frame frames hop hframes =>
    rw [hframes] at h
    refine h.2.renew hrun (Nat.le_refl _) ?_
    exact h.2.since.turn hrun (Nat.le_refl _) (Nat.le_refl _) fun _ =>
      ⟨Nat.le_refl _, Nat.le_refl _⟩

/-- In every state of a run the machine has come from the beginning of the code at hand. -/
theorem began_run (hp : p.Noted note placed) (hb : start.Balanced p note)
    (hframes : start.frames = []) (hhome : (note start.ip).home = start.ip)
    (h : p.runFor settings n start = .next s) : p.Began settings start note n s.frames s.ip := by
  induction n generalizing s with
  | zero =>
    cases h
    have hanew : p.Since settings start 0 start.frames.length start.ip start.ip := .anew rfl
    rw [hframes] at hanew ⊢
    rw [Program.Began, hhome]
    exact hanew
  | succ n ih =>
    obtain ⟨t, ht, hlast⟩ := exists_last_turn h
    exact hp.began_turn (hp.balanced_run hb ht) (ih ht) h hlast

/-- The value that the machine has on the stack when it returns from a `return` with an expression
was put there since it began with that expression. -/
theorem exists_start_of_return (hp : p.Noted note placed) (hb : start.Balanced p note)
    (hbegan : p.Began settings start note n s.frames s.ip)
    (h : p.runFor settings n start = .next s) {frame : Frame} {frames : List Frame}
    (hframes : s.frames = frame :: frames) (hdepth : (note s.ip).depth = 1)
    (hrest : (note (note s.ip).home).depth = 0) :
    ∃ k s₀ v, k ≤ n ∧ p.runFor settings k start = .next s₀ ∧ s₀.ip = (note s.ip).home ∧
      s₀.frames.length = s.frames.length ∧
      p.StaysBetween settings start k n s.frames.length (note s.ip).home s.ip ∧
      s.stack = v :: s₀.stack := by
  obtain ⟨k, s₀, hk, hs₀, hip, hlevel, hstays⟩ := hbegan.since
  have hb₀ := hp.balanced_run hb hs₀
  cases hf : s₀.frames with
  | nil =>
    rw [hf, hframes] at hlevel
    cases hlevel
  | cons f₀ fs₀ =>
    have hheight₀ := hb₀.height_eq
    rw [hip, hrest, hf, baseOf, Nat.add_zero] at hheight₀
    have hsegment : p.runFor settings (n - k) s₀ = .next s := by
      rw [← h, ← runFor_add hs₀, Nat.add_sub_cancel' hk]
    have hlasts : ∀ j t, j ≤ n - k → p.runFor settings j s₀ = .next t →
        fs₀.length < t.frames.length := by
      intro j t hj ht
      rw [← runFor_add hs₀] at ht
      have := (hstays (k + j) t (Nat.le_add_right k j) (by omega) ht).1
      rw [← hlevel, hf, List.length_cons] at this
      omega
    obtain ⟨inner, f, hframes', -, hbase, above, habove⟩ :=
      hp.within_run hb₀ ⟨[], f₀, hf, rfl, hheight₀.symm, List.suffix_refl _⟩ hsegment hlasts
    -- The machine is back on the same level, so nothing lies between the two.
    have hinner : inner = [] := by
      rw [hframes', hf, List.length_append, List.length_cons, List.length_cons] at hlevel
      exact List.length_eq_zero_iff.mp (by omega)
    have hheight := (hp.balanced_run hb h).height_eq
    rw [hframes', hinner, List.nil_append, baseOf, hbase, hdepth, ← habove, List.length_append]
      at hheight
    obtain ⟨v, rfl⟩ := List.length_eq_one_iff.mp (show above.length = 1 by omega)
    exact ⟨k, s₀, v, hk, hs₀, hip, hlevel, hstays, habove.symm⟩

end Program.Noted

/-! ## The discipline -/

/-- What holds of the stack in a state that a run of the program of a module has come to after some
turns. -/
structure Module.Disciplined (m : Module) (settings : Settings) (start : State) (n : Nat)
    (s : State) : Prop where
  /-- The height of the stack is known from the next instruction. -/
  height : s.stack.length = s.base + (m.note s.ip).depth
  /-- So is the height that a waiting call finds when the result of its callee is on the stack. -/
  callers : ∀ frame frames, frame :: frames <:+ s.frames →
    frame.base + 1 = baseOf frames + (m.note frame.returnTo).depth
  /-- The next instruction takes no more values than the call at hand has, -/
  takes : ∀ x, m.generate.code[s.ip]? = some x → x.takes ≤ (m.note s.ip).depth
  /-- leaves the values below alone, whatever comes of it, -/
  below : s.stack.drop (m.note s.ip).depth <:+ (m.generate.turn settings s).state.stack
  /-- and does not run out of values. -/
  enough : ∀ r s', m.generate.turn settings s = .failed r s' → r.fault ≠ .stackUnderflow
  /-- When the call of a function comes back, the stack of the caller is as it was, with one result
  in the place of the arguments. -/
  comesBack : ∀ x s₁ k s₂, m.generate.code[s.ip]? = some x → x.op = .call →
    m.generate.turn settings s = .next s₁ → s.frames.length < s₁.frames.length →
    m.generate.runFor settings k s₁ = .next s₂ → s₂.frames.length ≤ s.frames.length →
    (∀ j t, j < k → m.generate.runFor settings j s₁ = .next t →
      s.frames.length < t.frames.length) →
    s₂.ip = s.ip + 1 ∧ s₂.frames = s.frames ∧ ∃ v, s₂.stack = v :: s.stack.drop x.arg2
  /-- A return from a call gives the one value that the expression of its own statement has put on
  the stack since that statement was begun, or null if it belongs to no such statement. -/
  returns : ∀ x frame frames, m.generate.code[s.ip]? = some x → x.op = .ret →
    s.frames = frame :: frames →
    (∃ limit site, m.generate.turn settings s = .failed ⟨.stepLimitExceeded limit, site⟩ s) ∨
    ∃ s', m.generate.turn settings s = .next s' ∧ s'.ip = frame.returnTo ∧ s'.frames = frames ∧
      ((∃ span e a k s₀ v, ⟨.returnStmt span (some e), true, a⟩ ∈ m.placed ∧ s.ip = a + e.width ∧
          k ≤ n ∧ m.generate.runFor settings k start = .next s₀ ∧ s₀.ip = a ∧
          s₀.frames.length = s.frames.length ∧
          m.generate.StaysBetween settings start k n s.frames.length a s.ip ∧
          s.stack = v :: s₀.stack ∧ s'.stack = v :: s₀.stack) ∨
        (∀ span e inside a, ⟨.returnStmt span (some e), inside, a⟩ ∈ m.placed →
          s.ip ≠ a + e.width) ∧ s'.stack = .null :: s.stack)

namespace Program.Noted

variable {p : Program} {note : Nat → Note} {placed : List Placed} {settings : Settings}
  {s s₁ s₂ : State}

/-- No instruction runs out of values. -/
theorem ne_stackUnderflow (hp : p.Noted note placed) (hb : s.Balanced p note) {r : RuntimeFault}
    (h : p.turn settings s = .failed r s₁) : r.fault ≠ .stackUnderflow := by
  have hturned := hp.turned hb settings
  rw [h] at hturned
  cases hturned with
  | stopped => nofun
  | failed hcode heffect =>
    cases heffect with
    | fault hop hcause => cases hcause <;> nofun
    | unknown => nofun

/-- A call of a function that comes back leaves the stack of its caller alone. -/
theorem back_of_call (hp : p.Noted note placed) (hb : s.Balanced p note) {x : Instruction}
    (hcode : p.code[s.ip]? = some x) (hop : x.op = .call) (hturn : p.turn settings s = .next s₁)
    (hentered : s.frames.length < s₁.frames.length) {k : Nat}
    (hrun : p.runFor settings k s₁ = .next s₂) (hover : s₂.frames.length ≤ s.frames.length)
    (hlasts : ∀ j t, j < k → p.runFor settings j s₁ = .next t →
      s.frames.length < t.frames.length) :
    s₂.Back (s.ip + 1) (s.stack.drop x.arg2) s.frames := by
  obtain ⟨y, hy, heffect⟩ := hp.effect_of_turn hb hturn
  obtain rfl : x = y := Option.some.inj (hcode.symm.trans hy)
  have hb₁ := hp.balanced_turn hb hturn
  cases heffect with
  | step given hcontext hip hgiven hstack =>
    rw [State.length_frames_of_context hcontext] at hentered
    exact absurd hentered (Nat.lt_irrefl _)
  | enter hop hname hbuiltin hentry =>
    exact hp.back_run hb₁ ⟨[], _, rfl, rfl, rfl, List.suffix_refl _⟩ hrun hlasts hover
  | leave hop' hframes =>
    rw [hop] at hop'
    cases hop'

/-- A return from a call is never kept from it, but by the step limit. -/
theorem turn_of_ret (hp : p.Noted note placed) (hb : s.Balanced p note) {x : Instruction}
    (hcode : p.code[s.ip]? = some x) (hop : x.op = .ret) {frame : Frame} {frames : List Frame}
    (hframes : s.frames = frame :: frames) (settings : Settings) :
    (∃ limit site, p.turn settings s = .failed ⟨.stepLimitExceeded limit, site⟩ s) ∨
    ∃ s', p.turn settings s = .next s' ∧ s'.ip = frame.returnTo ∧ s'.frames = frames ∧
      s'.stack = (if frame.base < s.stack.length then s.stack.headD .null else .null) ::
        s.stack.drop (s.stack.length - frame.base) := by
  have hsame : ∀ {y}, p.code[s.ip]? = some y → y.op = .ret := fun hy => by
    rw [hcode] at hy
    cases hy
    exact hop
  have hturned := hp.turned hb settings
  generalize p.turn settings s = t at hturned
  cases hturned with
  | finished hip => exact absurd (lt_size_of_code hcode) (by omega)
  | stopped => exact .inl ⟨_, _, rfl⟩
  | next hy heffect =>
    cases heffect with
    | step given hcontext hip hgiven hstack =>
      -- A return has no successor in the code.
      rw [Instruction.successors, hsame hy] at hip
      cases hip
    | enter hop' hname hbuiltin hentry =>
      rw [hsame hy] at hop'
      cases hop'
    | leave hop' hframes' =>
      rw [hframes] at hframes'
      cases hframes'
      exact .inr ⟨_, rfl, rfl, rfl, rfl⟩
  | halted hy heffect =>
    cases heffect with
    | halt hop' hnone =>
      rw [hframes] at hnone
      cases hnone
  | failed hy heffect =>
    cases heffect with
    | @fault op cause hop' hcause =>
      rw [hsame hy] at hop'
      cases op <;> cases hop'
    | unknown hop' hname hbuiltin hentry =>
      rw [hsame hy] at hop'
      cases hop'

end Program.Noted

/-- The note of the instruction that returns with the value of an expression. -/
theorem Module.note_of_return {m : Module} {span : Span} {e : Expr} {inside : Bool} {a : Nat}
    (h : ⟨.returnStmt span (some e), inside, a⟩ ∈ m.placed) :
    m.note (a + e.width) = ⟨1, inside, a⟩ := by
  have hnoted := (m.generate_noted.rests _ h).1
  rw [Stmt.notes] at hnoted
  exact (noted_notes.mp hnoted).2

/-- The heights of the stack in all runs of the program of a module are known from the module: they
are zero above the call at hand before and after every statement, and every state of a run keeps to
them. -/
theorem Module.generate_disciplined (m : Module) (settings : Settings) (input : List UInt8)
    (globals : Variables) :
    (∀ x ∈ m.placed,
      (m.note x.offset).depth = 0 ∧ (m.note (x.offset + x.stmt.width)).depth = 0) ∧
    ∀ n s, m.generate.runFor settings n (.initial input globals) = .next s →
      m.Disciplined settings (.initial input globals) n s := by
  have hp := m.generate_noted
  refine ⟨fun x hx => ?_, fun n s hrun => ?_⟩
  · obtain ⟨-, hstart, hend⟩ := hp.rests x hx
    exact ⟨by rw [hstart]; rfl, hend⟩
  have hinitial := hp.balanced_initial input globals
  have hb := hp.balanced_run hinitial hrun
  have hhome : (m.note 0).home = 0 := by rw [hp.start]; rfl
  refine ⟨hb.height_eq, fun frame frames hs => (hb.of_suffix hs).2.height_eq,
    fun x hcode => (hp.fits hcode).takes, hp.below_suffix hb settings,
    fun r s' h => hp.ne_stackUnderflow hb h, ?_, ?_⟩
  · intro x s₁ k s₂ hcode hop hturn hentered hrun' hover hlasts
    exact hp.back_of_call hb hcode hop hturn hentered hrun' hover hlasts
  · intro x frame frames hcode hop hframes
    refine (hp.turn_of_ret hb hcode hop hframes settings).imp_right ?_
    rintro ⟨s', hturn, hip, hframes', hstack⟩
    refine ⟨s', hturn, hip, hframes', ?_⟩
    have hheight := hb.height_eq
    rw [hframes, baseOf] at hheight
    rcases (hp.fits hcode).ret hop with hdepth | ⟨hdepth, span, e, hat, hplaced⟩
    -- Whether the machine finds a value above the base is decided by the depth at the return.
    · right
      refine ⟨fun span e inside a hx heq => ?_, ?_⟩
      · rw [heq, Module.note_of_return hx] at hdepth
        cases hdepth
      · rw [hstack, if_neg (by omega), hheight, hdepth, Nat.add_zero, Nat.sub_self, List.drop_zero]
    · left
      have hinside := hb.inside_eq
      rw [hframes] at hinside
      rw [hinside] at hplaced
      -- The statement begins where the machine was last at rest.
      have hrest : (m.note (m.note s.ip).home).depth = 0 := by
        rw [(hp.rests _ hplaced).2.1]
        rfl
      obtain ⟨k, s₀, v, hk, hs₀, hip₀, hlevel, hstays, hv⟩ := hp.exists_start_of_return hinitial
        (hp.began_run hinitial rfl hhome hrun) hrun hframes hdepth hrest
      refine ⟨span, e, _, k, s₀, v, hplaced, hat, hk, hs₀, hip₀, hlevel, hstays, hv, ?_⟩
      rw [hstack, if_pos (by omega), hv, List.headD_cons, ← hv, hheight, hdepth,
        Nat.add_sub_cancel_left, hv, List.drop_one, List.tail_cons]

/-- A function that returns out of a loop, called as the argument of a call in the middle of an
expression. -/
def Module.nested : Module where
  body := [
    .fnStmt .zero "same" ["n"] [
      .whileStmt .zero (.literal .zero (.bool true)) [
        .returnStmt .zero (some (.name .zero 0 "n"))]],
    .letStmt .zero "a" (some (.binary .zero .add (.literal .zero (.str "x"))
      (.call .zero 1 "same" [.call .zero 2 "same" [.literal .zero (.str "y")]])))]
  nodeCount := 3

/-- The state of `Module.nested` in which the inner call is about to return. -/
def Module.nestedReturn : State where
  ip := 4
  stack := [.str "y", .str "x"]
  frames := [⟨10, ⟨[("n", .str "y")]⟩, 1⟩]
  globals := .empty
  printed := []
  screen := []
  input := []
  steps := 7

/-- The discipline where the inner call of `Module.nested` is about to return. -/
theorem Module.nested_disciplined :
    ((nested.note 3).depth = 0 ∧ (nested.note 5).depth = 0) ∧
    nested.generate.code[4]? = some ⟨.ret, 0, 0⟩ ∧
    nested.generate.runFor ⟨false, none⟩ 7 (.initial [] .empty) = .next nestedReturn ∧
    nested.Disciplined ⟨false, none⟩ (.initial [] .empty) 7 nestedReturn := by
  have h := Module.generate_disciplined nested ⟨false, none⟩ [] .empty
  have hreturn : ⟨.returnStmt .zero (some (.name .zero 0 "n")), true, 3⟩ ∈ nested.placed :=
    .tail _ (.tail _ (.head _))
  have hrun : nested.generate.runFor ⟨false, none⟩ 7 (.initial [] .empty) = .next nestedReturn := by
    with_unfolding_all rfl
  exact ⟨h.1 _ hreturn, by decide +kernel, hrun, h.2 7 _ hrun⟩

end Scriptlet
