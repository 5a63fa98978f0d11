import Scriptlet.Proofs.Simulation

/-!
# Generated programs do what their modules mean

The machine follows calls, to any depth, and so the whole module: a run of the generated program
ends with what evaluation of the module comes to.  A run for which evaluation has no answer lasts at
least as many turns as evaluation was given, which turns agreement on answers into agreement on
endless runs (`Module.generate_correct`).
-/

namespace Scriptlet

/-! ## Calls -/

/-- A block that ends with a return never goes on behind itself. -/
theorem Stmt.execs_ne_next (call : Caller) (rounds : Nat) (inLoop : Bool) :
    ∀ (ss : List Stmt), endsWithReturn ss = true → ∀ st st' : Store,
      Stmt.execs call rounds inLoop ss st ≠ .done .next st'
  | [], h, _, _ => by simp at h
  | [s], h, st, st' => by
    obtain ⟨span, value, rfl⟩ := endsWithReturn_singleton.mp h
    rw [Stmt.execs]
    cases value with
    | none => rw [Stmt.exec]; simp [Answer.bind]
    | some value => rw [Stmt.exec]; cases value.eval call st <;> simp [Answer.bind]
  | s :: t :: rest, h, st, st' => by
    rw [endsWithReturn_cons_cons] at h
    rw [Stmt.execs]
    cases s.exec call rounds inLoop st with
    | done flow after =>
      cases flow with
      | next => exact Stmt.execs_ne_next call rounds inLoop (t :: rest) h after st'
      | leave => simp [Answer.bind]
      | again => simp [Answer.bind]
      | returned v => simp [Answer.bind]
    | fault cause after => simp [Answer.bind]
    | unfinished => simp [Answer.bind]

namespace Program

variable {p : Program} {echo : Bool} {s : State}

/-- The arguments on top of the stack are taken off in their order. -/
theorem takeArguments?_eq {args rest : List Value} (h : s.stack = args.reverse ++ rest) :
    s.takeArguments? args.length = some (args, { s with stack := rest }) := by
  have hlen : ¬s.stack.length < args.length := by simp [h]
  have htake : (args.reverse ++ rest).take args.length = args.reverse := by
    exact List.take_left' List.length_reverse
  have hdrop : (args.reverse ++ rest).drop args.length = rest := by
    exact List.drop_left' List.length_reverse
  rw [State.takeArguments?, if_neg hlen, h, htake, hdrop, List.reverse_reverse]

theorem turn_call_builtin {f : String} {args rest : List Value} {b : Builtin}
    (h : p.CallAt f args.length s.ip) (hs : s.stack = args.reverse ++ rest)
    (hb : Builtin.ofName? f = some b) :
    p.turn ⟨echo, none⟩ s =
      .next (State.callBuiltin { s.begun with stack := rest } echo args b) := by
  obtain ⟨k, hcode, hconst⟩ := h
  have htake := takeArguments?_eq (s := s.begun) hs
  simp only [turn_of_code hcode, execute, callAt, withConstant, hconst, callNamed, hb, htake]

theorem turn_call_unknown {f : String} {count : Nat} (h : p.CallAt f count s.ip)
    (hb : Builtin.ofName? f = none) (hf : p.functions.find? f = none) :
    p.turn ⟨echo, none⟩ s =
      .failed ⟨.unknownFunction f, some ⟨s.ip, Opcode.call.name⟩⟩ s.begun := by
  obtain ⟨k, hcode, hconst⟩ := h
  simp only [turn_of_code hcode, execute, callAt, withConstant, hconst, callNamed, hb, function?,
    hf]

theorem turn_call_function {f : String} {args rest : List Value} {entry : FunctionEntry}
    (h : p.CallAt f args.length s.ip) (hs : s.stack = args.reverse ++ rest)
    (hb : Builtin.ofName? f = none) (hf : p.functions.find? f = some entry)
    (hoffset : entry.offset ≤ p.code.size) :
    p.turn ⟨echo, none⟩ s = .next { s.begun with
      ip := entry.offset
      stack := rest
      frames := ⟨s.ip + 1, bindAll entry.params args .empty, rest.length⟩ :: s.frames } := by
  obtain ⟨k, hcode, hconst⟩ := h
  have htake := takeArguments?_eq (s := s.begun) hs
  simp only [turn_of_code hcode, execute, callAt, withConstant, hconst, callNamed, hb, function?,
    hf, withTarget, if_neg (Nat.not_lt.mpr hoffset), htake, bindParameters_eq_bindAll]
  rfl

/-- Returning with the one value above the base, or with null if there is none. -/
theorem turn_ret {frame : Frame} {frames : List Frame} {v : Value} {rest : List Value}
    (h : p.PlainAt .ret s.ip) (hf : s.frames = frame :: frames) (hbase : rest.length = frame.base)
    (hs : s.stack = v :: rest ∨ v = .null ∧ s.stack = rest) :
    p.turn ⟨echo, none⟩ s = .next { s.begun with
      ip := frame.returnTo
      stack := v :: rest
      frames := frames } := by
  have hb : s.begun.frames = frame :: frames := hf
  have hstack : s.begun.stack = s.stack := rfl
  simp only [turn_of_code h, execute, State.returnFromCall, hb, hstack]
  rcases hs with hs | ⟨rfl, hs⟩
  · simp [hs, hbase]
  · simp [hs, hbase]

/-- Returning outside all calls ends the program. -/
theorem turn_ret_outside (h : p.PlainAt .ret s.ip) (hf : s.frames = []) :
    p.turn ⟨echo, none⟩ s = .done s.begun := by
  have hb : s.begun.frames = [] := hf
  simp only [turn_of_code h, execute, State.returnFromCall, hb]

end Program

section Calls

variable {p : Program} {echo : Bool} {k : Nat} {call : Caller}

/-- From the start of a function the machine comes back to the caller with the value of the call. -/
theorem Definition.run_gives (hcall : p.Follows echo k call) {d : Definition} {a : Nat}
    (hd : d.At p Eq a) {s : State} {returnTo : Nat} {vars : Variables} {frames : List Frame}
    {args : List Value} {st : Store} (hip : s.ip = a)
    (hf : s.frames = ⟨returnTo, vars, s.stack.length⟩ :: frames)
    (hstart : { st with locals := some (bindAll d.params args .empty) } = s.store)
    (hlocals : st.locals = frames.head?.map Frame.locals) :
    p.Gives echo s k (fun v s' => s'.Stands returnTo (v :: s.stack) frames)
      (d.run call k args st) := by
  obtain ⟨hle, hall, hbehind⟩ := hd
  subst hip
  have hfit := Stmt.end_le_of_allAt none d.body s.ip hall hle
  have hbody := Stmt.gives_all hcall none (fun l hl => by cases hl) d.body s hall hfit
  rw [Definition.run, hstart]
  -- Whatever way the body ends, an instruction that returns comes next.
  have hreturn : ∀ (v : Value) (s₁ : State), p.PlainAt .ret s₁.ip → s₁.context = s.context →
      (s₁.stack = v :: s.stack ∨ v = .null ∧ s₁.stack = s.stack) →
      p.Gives echo s₁ k (fun v s' => s'.Stands returnTo (v :: s.stack) frames)
        (.done v { s₁.store with locals := st.locals }) := by
    intro v s₁ hret hc hs
    obtain ⟨vars, hf₁⟩ := State.frames_of_context hc hf
    have hturn : p.turn ⟨echo, none⟩ s₁ = _ := Program.turn_ret hret hf₁ rfl hs
    rw [hlocals]
    exact (Program.Gives.turn hturn (.here ⟨rfl, rfl, rfl⟩)).mono (Nat.le_succ k)
  refine hbody.self.bind fun flow s₁ h₁ => ?_
  obtain ⟨⟨hc, h₁⟩, hr⟩ := h₁
  cases flow with
  | next =>
    rcases hbehind with hends | hret
    · exact absurd hr (Stmt.execs_ne_next call k false d.body hends _ _)
    · rw [← h₁.1] at hret
      exact hreturn .null s₁ hret hc (.inr ⟨rfl, h₁.2⟩)
  | leave =>
    obtain ⟨⟨l, hl, -⟩, -⟩ := h₁
    cases hl
  | again =>
    obtain ⟨⟨l, hl, -⟩, -⟩ := h₁
    cases hl
  | returned v => exact hreturn v s₁ h₁.1 hc h₁.2

/-- The machine follows calls of built-in functions and of unknown names, and enters all other
functions by a call instruction. -/
theorem dispatch_follows {defs : List Definition}
    (htable : TableOf (Definition.At p Eq) p.functions defs)
    {enter : Definition → List Value → Store → Answer Value}
    (henter : ∀ (d : Definition) (a : Nat) (s : State) (f : String) (args rest : List Value),
      d.At p Eq a → p.functions.find? f = some ⟨a, d.params⟩ → Builtin.ofName? f = none →
      p.CallAt f args.length s.ip → s.stack = args.reverse ++ rest →
        p.Gives echo s k (fun v s' => s'.Stands (s.ip + 1) (v :: rest) s.frames)
          (enter d args s.store)) :
    p.Follows echo k (dispatch echo defs enter) := by
  intro s f args rest hat hs
  rw [dispatch]
  cases hb : Builtin.ofName? f with
  | some b =>
    obtain ⟨hstore, hstands⟩ := Program.callBuiltin_eq echo b args
      ({ s.begun with stack := rest } : State)
    have hst : ({ s.begun with stack := rest } : State).store = s.store := rfl
    rw [hst] at hstore hstands
    have hturn : p.turn ⟨echo, none⟩ s = _ := Program.turn_call_builtin hat hs hb
    refine (Program.Gives.turn hturn ?_).mono (Nat.le_succ k)
    show p.Gives echo _ k _
      (.done (s.store.builtin echo args b).1 (s.store.builtin echo args b).2)
    rw [← hstore]
    exact .here hstands
  | none =>
    have hentry := htable f
    -- The table has an entry exactly for the names that some definition has.
    cases hd : Definition.last? defs f with
    | none =>
      rw [hd] at hentry
      exact .failed (Program.turn_call_unknown hat hb hentry) rfl rfl
    | some d =>
      rw [hd] at hentry
      obtain ⟨a, hfind, hda⟩ := hentry
      exact henter d a s f args rest hda hfind hb hat hs

/-- The machine follows calls of the functions in its table, however deeply they may be nested. -/
theorem callAmong_follows (echo : Bool) {defs : List Definition}
    (htable : TableOf (Definition.At p Eq) p.functions defs) (fuel : Nat) :
    p.Follows echo fuel (callAmong echo defs fuel) := by
  induction fuel with
  | zero =>
    rw [callAmong]
    refine dispatch_follows htable ?_
    intro d a s f args rest _ _ _ _ _
    exact ⟨s, rfl⟩
  | succ fuel ih =>
    rw [callAmong]
    refine dispatch_follows htable ?_
    intro d a s f args rest hda hfind hb hat hs
    -- The turn that enters the function pays for the depth that its body has less.
    refine Program.Gives.turn (Program.turn_call_function hat hs hb hfind hda.1) ?_
    exact Definition.run_gives ih hda rfl rfl rfl rfl

end Calls

/-! ## Modules -/

/-- What can be seen of a run that has ended. -/
def Turn.observation? : Turn → Option Observation
  | .next _ => none
  | .done s => some (s.store.observe none)
  | .failed r s => some (s.store.observe (some r.fault))

/-- If the machine ends where an answer leaves it, what can be seen of the answer can be seen of the
run. -/
theorem Program.Gives.observation? {p : Program} {echo : Bool} {α : Type} {s : State} {k : Nat}
    {post : α → State → Prop} {r : Answer α} (h : p.Gives echo s k post r)
    (hend : ∀ a s', post a s' → ∃ t, p.turn ⟨echo, none⟩ s' = .done t ∧ t.store = s'.store) :
    match r.observation? with
    | some o => ∃ n, (p.runFor ⟨echo, none⟩ n s).observation? = some o
    | none => ∃ s', p.runFor ⟨echo, none⟩ k s = .next s' := by
  cases r with
  | done a st =>
    obtain ⟨n, s', hn, rfl, ha⟩ := h
    obtain ⟨t, ht, hstore⟩ := hend a s' ha
    have hended : ¬(p.turn ⟨echo, none⟩ s').GoesOn := by
      rw [ht]
      rintro ⟨u, hu⟩
      cases hu
    refine ⟨n + 1, ?_⟩
    rw [runFor_concat_of_ended hn hended, ht, ← hstore]
    rfl
  | fault cause st =>
    obtain ⟨n, r, s', hn, rfl, rfl⟩ := h
    exact ⟨n, by rw [hn]; rfl⟩
  | unfinished => exact h

/-- A run of a generated program comes to what evaluation of the module comes to, and lasts for at
least as many turns as evaluation was given without an answer. -/
theorem Module.run_of_evaluate (m : Module) (hat : Stmt.AllAt m.generate Eq none m.body 0)
    (echo : Bool) (fuel : Nat) (input : List UInt8) (globals : Variables) :
    match m.evaluate echo fuel input globals with
    | some o =>
      ∃ n, (m.generate.runFor ⟨echo, none⟩ n (.initial input globals)).observation? = some o
    | none => ∃ s, m.generate.runFor ⟨echo, none⟩ fuel (.initial input globals) = .next s := by
  have hsize := m.size_generate
  have htable := m.generate_table (Module.bodies_at hat)
  have hgives := Stmt.gives_all (callAmong_follows echo htable fuel) none
    (fun l hl => by cases hl) m.body (.initial input globals) hat
    (by rw [hsize]; simp [State.initial])
  refine hgives.observation? fun flow s hs => ?_
  obtain ⟨hcontext, hflow⟩ := hs
  cases flow with
  | next =>
    -- The machine stands behind the last instruction.
    have hcode : m.generate.code[s.ip]? = none := by
      rw [hflow.1, Array.getElem?_eq_none_iff, hsize]
      simp [State.initial]
    exact ⟨s, Program.turn_of_end hcode, rfl⟩
  | leave =>
    -- There is no loop around the module that `break` or `continue` could belong to.
    obtain ⟨⟨l, hl, -⟩, -⟩ := hflow
    cases hl
  | again =>
    obtain ⟨⟨l, hl, -⟩, -⟩ := hflow
    cases hl
  | returned v =>
    have hframes : s.frames = [] := by
      cases hf : s.frames with
      | nil => rfl
      | cons frame frames => simp [State.context, State.initial, hf] at hcontext
    exact ⟨s.begun, Program.turn_ret_outside hflow.1 hframes, rfl⟩

/-! ## Float literals share a constant only if they are the same -/

/-- No two float literals of a module are equal as numbers but differ in their bits. -/
def Module.FloatsApart (m : Module) : Prop :=
  ∀ x y : Float, .float x ∈ Stmt.literalsIn m.body → .float y ∈ Stmt.literalsIn m.body →
    (x == y) = true → x.toBits = y.toBits

/-- A floating point number is given by its bits. -/
theorem eq_of_toBits_eq {x y : Float} (h : x.toBits = y.toBits) : x = y := by
  obtain ⟨⟨a, ha⟩⟩ := x
  obtain ⟨⟨b, hb⟩⟩ := y
  have hab : a = b := h
  subst hab
  rfl

/-- A literal that is no float agrees with itself only. -/
theorem Literal.eq_of_agrees {v w : Literal} (h : v.agrees w = true)
    (hv : ∀ x, v ≠ .float x) : v = w := by
  cases v with
  | float x => exact absurd rfl (hv x)
  | int n => cases w <;> simp_all [Literal.agrees]
  | str s => cases w <;> simp_all [Literal.agrees]
  | bool b => cases w <;> simp_all [Literal.agrees]

/-- Every literal of a module finds itself in the pool. -/
theorem Module.FloatsApart.keeps {m : Module} (h : m.FloatsApart) {v : Literal}
    (hv : v ∈ Stmt.literalsIn m.body) : m.generate.Keeps Eq v := by
  refine ⟨rfl, fun found hfound hagrees => ?_⟩
  by_cases hfloat : ∃ x, v = .float x
  · obtain ⟨x, rfl⟩ := hfloat
    cases found with
    | float y =>
      rcases Module.mem_constants_generate hfound with hy | ⟨name, hname⟩
      · rw [eq_of_toBits_eq (h x y hv hy hagrees)]
      · cases hname
    | int n => cases hagrees
    | str s => cases hagrees
    | bool b => cases hagrees
  · exact Literal.eq_of_agrees hagrees fun x hx => hfloat ⟨x, hx⟩

/-! ## Agreement -/

theorem Turn.not_goesOn_of_observation? {t : Turn} {o : Observation}
    (h : t.observation? = some o) : ¬t.GoesOn := by
  rintro ⟨s, rfl⟩
  cases h

/-- If every run comes to an answer where there is one, and lasts as long as the answer was waited
for where there is none, then runs end with answers only, and go on forever exactly if there is
never one. -/
theorem Program.ends_iff {p : Program} {settings : Settings} {s : State}
    {answer : Nat → Option Observation}
    (h : ∀ fuel, match answer fuel with
      | some o => ∃ n, (p.runFor settings n s).observation? = some o
      | none => ∃ s', p.runFor settings fuel s = .next s') :
    (∀ o, (∃ n, (p.runFor settings n s).observation? = some o) ↔ ∃ fuel, answer fuel = some o) ∧
      ((∀ n, (p.runFor settings n s).GoesOn) ↔ ∀ fuel, answer fuel = none) := by
  have hended : ∀ fuel o, answer fuel = some o →
      ∃ n, (p.runFor settings n s).observation? = some o := by
    intro fuel o ho
    have hrun := h fuel
    rwa [ho] at hrun
  have hgoes : ∀ fuel, answer fuel = none → (p.runFor settings fuel s).GoesOn := by
    intro fuel ho
    have hrun := h fuel
    rwa [ho] at hrun
  refine ⟨fun o => ⟨?_, fun ⟨fuel, ho⟩ => hended fuel o ho⟩, ⟨?_, fun h n => hgoes n (h n)⟩⟩
  · -- After as long as the run took there is an answer, and there is only one end.
    rintro ⟨n, hn⟩
    have hstop := Turn.not_goesOn_of_observation? hn
    cases ho : answer n with
    | none => exact absurd (hgoes n ho) hstop
    | some o' =>
      obtain ⟨n', hn'⟩ := hended n o' ho
      have hsame := Program.runFor_unique hstop (Turn.not_goesOn_of_observation? hn')
      rw [hsame, hn'] at hn
      exact ⟨n, ho.trans hn⟩
  · intro h fuel
    cases ho : answer fuel with
    | none => rfl
    | some o =>
      obtain ⟨n, hn⟩ := hended fuel o ho
      exact absurd (h n) (Turn.not_goesOn_of_observation? hn)

/-- A run of the program of a module ends with what evaluation of the module comes to, and goes on
forever exactly if evaluation never has an answer. -/
theorem Module.generate_correct (m : Module) (hm : m.FloatsApart) (echo : Bool)
    (input : List UInt8) (globals : Variables) :
    (∀ o, (∃ n, (m.generate.runFor ⟨echo, none⟩ n (.initial input globals)).observation? = some o) ↔
        ∃ fuel, m.evaluate echo fuel input globals = some o) ∧
      ((∀ n, (m.generate.runFor ⟨echo, none⟩ n (.initial input globals)).GoesOn) ↔
        ∀ fuel, m.evaluate echo fuel input globals = none) := by
  have hkeeps : ∀ v ∈ Stmt.literalsIn m.body, m.generate.Keeps Eq v := fun v hv => hm.keeps hv
  refine Program.ends_iff fun fuel => ?_
  exact m.run_of_evaluate (m.generate_at hkeeps) echo fuel input globals

/-- A function that leaves a loop in two ways, one float written twice, a call without its argument,
and a fault at the end. -/
def Module.pick : Module where
  body := [
    .fnStmt .zero "pick" ["first"] [
      .whileStmt .zero (.literal .zero (.bool true)) [
        .ifStmt .zero (.name .zero 0 "first") [.returnStmt .zero (some (.name .zero 1 "low"))],
        .breakStmt .zero],
      .returnStmt .zero (some (.literal .zero (.float 1.5)))],
    .letStmt .zero "low" (some (.literal .zero (.float 1.5))),
    .letStmt .zero "a" (some (.call .zero 2 "pick" [.literal .zero (.bool true)])),
    .letStmt .zero "b" (some (.call .zero 3 "pick" [])),
    .exprStmt .zero (.binary .zero .div (.literal .zero (.int 1)) (.literal .zero (.int 0)))]
  nodeCount := 4

/-- What running `Module.pick` comes to. -/
theorem Module.pick_run : Module.pick.FloatsApart ∧
    ∃ n, (Module.pick.generate.runFor ⟨true, none⟩ n (.initial [] .empty)).observation? =
      some ⟨some .divisionByZero,
        ⟨[("a", .float 1.5), ("b", .float 1.5), ("low", .float 1.5)]⟩, [], [], []⟩ := by
  have hm : Module.pick.FloatsApart := by
    intro x y hx hy _
    simp [pick, Stmt.literalsIn, Stmt.literals, Expr.literals, Expr.literalsIn] at hx hy
    rw [hx, hy]
  exact ⟨hm, ((Module.generate_correct _ hm true [] .empty).1 _).mpr ⟨3, rfl⟩⟩

end Scriptlet
