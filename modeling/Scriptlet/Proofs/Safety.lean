import Scriptlet.Proofs.Accepted
import Scriptlet.Proofs.Balance

/-!
# Accepted programs do not go wrong

A module is checked by the names in its scopes, its program is looked through by bare names.  What
the check promises (`Module.resolve_ok`) still holds of what the program finds: functions have
different names, so a call leads to the very function it was checked against.  With the balance of
the stack, a run can only fail on the values that it computes with or on its step limit
(`Module.runFor_sound`).
-/

namespace Scriptlet

/-! ## Calls find what they were checked against -/

/-- A name leads to a built-in function or to a function with a given number of parameters. -/
def Program.Callable (p : Program) (name : String) (args : Nat) : Prop :=
  (Builtin.ofName? name).isSome = true ∨
    ∃ entry, p.function? name = some entry ∧ entry.params.length = args

/-- If names are different, the last function of a name is the only one. -/
theorem Definition.last?_of_mem {defs : List Definition}
    (hdistinct : (defs.map Definition.name).Nodup) {d : Definition} (hd : d ∈ defs) :
    Definition.last? defs d.name = some d := by
  induction defs with
  | nil => cases hd
  | cons e rest ih =>
    obtain ⟨hnew, hrest⟩ := List.nodup_cons.mp hdistinct
    have hcons : Definition.last? (e :: rest) d.name =
        (Definition.last? rest d.name).or ([e].find? fun f => f.name == d.name) := by
      unfold Definition.last?
      rw [List.reverse_cons, List.find?_append]
    rw [hcons]
    rcases List.mem_cons.mp hd with rfl | hd
    · have hnone : Definition.last? rest d.name = none := by
        unfold Definition.last?
        rw [List.find?_eq_none]
        intro f hf hname
        have hmem := List.mem_map_of_mem (f := Definition.name) (List.mem_reverse.mp hf)
        rw [eq_of_beq hname] at hmem
        exact hnew hmem
      rw [hnone]
      simp
    · rw [ih hrest hd]
      rfl

/-- A call that can be made among the functions of a module finds its callee in the program. -/
theorem Module.callable_of_canCall {m : Module}
    (hdistinct : ((Stmt.definitionsIn m.body).map Definition.name).Nodup) {name : String}
    {args : Nat} (h : CanCall ((Stmt.definitionsIn m.body).map Definition.signature) name args) :
    m.generate.Callable name args := by
  rcases h with hbuiltin | ⟨params, hmem, hlen⟩
  · exact .inl hbuiltin
  · obtain ⟨d, hd, hsignature⟩ := List.mem_map.mp hmem
    cases hsignature
    have htable : TableOf (fun _ _ => True) m.generate.functions (Stmt.definitionsIn m.body) :=
      m.generate_table fun _ _ _ _ _ _ _ => trivial
    have hfound := htable d.name
    rw [Definition.last?_of_mem hdistinct hd] at hfound
    obtain ⟨a, hfind, -⟩ := hfound
    exact .inr ⟨⟨a, d.params⟩, hfind, hlen⟩

/-! ## Runs -/

/-- What a run that has not gone wrong has come to.  If it goes on and is about to make a call, the
callee is there and has as many parameters as it is given arguments. If it has ended, nothing is
left on the stack and no call is active. If it has failed, it has failed on the values it computed
with or on its step limit. -/
def Program.Sound (p : Program) : Turn → Prop
  | .next s => ∀ x, p.code[s.ip]? = some x → x.op = .call →
    ∃ name, p.constants[x.arg1]? = some (.str name) ∧ p.Callable name x.arg2
  | .done s => s.stack = [] ∧ s.frames = []
  | .failed r _ => r.fault.OfValues ∨ ∃ limit, r.fault = .stepLimitExceeded limit

namespace Program.Noted

variable {p : Program} {note : Nat → Note} {placed : List Placed} {s : State}

/-- A call is written in some statement, so its callee is there. -/
theorem sound_next (hp : p.Noted note placed)
    (hcalls : ∀ x ∈ placed, ∀ c ∈ x.stmt.calls, p.Callable c.1 c.2) (s : State) :
    p.Sound (.next s) := by
  intro x hcode hop
  obtain ⟨-, name, hname, y, hy, hcall⟩ := (hp.fits hcode).call hop
  exact ⟨name, hname, hcalls y hy _ hcall⟩

/-- No turn of a program whose calls find their callees, and which has no return outside of
functions, goes wrong. -/
theorem sound_turn (hp : p.Noted note placed)
    (hcalls : ∀ x ∈ placed, ∀ c ∈ x.stmt.calls, p.Callable c.1 c.2)
    (hreturns : ∀ x ∈ placed, ∀ span value, x.stmt = .returnStmt span value → x.inside = true)
    (hb : s.Balanced p note) (settings : Settings) : p.Sound (p.turn settings s) := by
  have hturned := hp.turned hb settings
  generalize p.turn settings s = t at hturned ⊢
  cases hturned with
  | finished hip => exact hp.rest_of_end hb hip
  | stopped => exact .inr ⟨_, rfl⟩
  | next hcode heffect => exact hp.sound_next hcalls _
  | halted hcode heffect =>
    cases heffect with
    | halt hop hframes => exact absurd hframes (hp.frames_ne_nil_of_ret hreturns hb hcode hop)
  | failed hcode heffect =>
    cases heffect with
    | fault hop hcause => exact .inl hcause
    | unknown hop hname hbuiltin hentry =>
      -- the callee is there after all
      obtain ⟨name', hname', hcallable⟩ := hp.sound_next hcalls s _ hcode hop
      cases hname.symm.trans hname'
      rcases hcallable with hsome | ⟨entry, hfound, -⟩
      · rw [hbuiltin] at hsome
        cases hsome
      · rw [hentry] at hfound
        cases hfound

end Program.Noted

/-- A run of the program of a module that is accepted does not go wrong, and it ends if it has a
step limit. -/
theorem Module.runFor_sound {m : Module} {found : Resolution} (h : m.resolve = .ok found)
    (settings : Settings) (input : List UInt8) (globals : Variables) :
    (∀ n, m.generate.Sound (m.generate.runFor settings n (.initial input globals))) ∧
      ∀ limit, settings.maxSteps = some limit →
        ¬(m.generate.runFor settings (limit + 1) (.initial input globals)).GoesOn := by
  have hp := m.generate_noted
  have hinitial := hp.balanced_initial input globals
  obtain ⟨hdistinct, haccepted⟩ := Module.resolve_ok h
  have hcalls : ∀ x ∈ m.placed, ∀ c ∈ x.stmt.calls, m.generate.Callable c.1 c.2 :=
    fun x hx c hc => Module.callable_of_canCall hdistinct ((haccepted x hx).1 c hc)
  constructor
  · intro n
    by_cases hgo : (m.generate.runFor settings n (.initial input globals)).GoesOn
    · obtain ⟨s, hs⟩ := hgo
      rw [hs]
      exact hp.sound_next hcalls s
    · obtain ⟨k, s, hs, hturn⟩ := Program.exists_turn_of_ended hgo
      rw [← hturn]
      have hb := hp.balanced_run hinitial hs
      exact hp.sound_turn hcalls (fun x hx => (haccepted x hx).2) hb settings
  · intro limit hlimit
    exact Program.ends_of_maxSteps hlimit

/-- A function that doubles a number, a call of it, and a call of `print` with the result. -/
def Module.doubling : Module where
  body := [
    .fnStmt .zero "double" ["n"] [
      .returnStmt .zero (some (.binary .zero .add (.name .zero 0 "n") (.name .zero 1 "n")))],
    .letStmt .zero "x" (some (.call .zero 2 "double" [.literal .zero (.int 21)])),
    .exprStmt .zero (.call .zero 3 "print" [.name .zero 4 "x"])]
  nodeCount := 5

/-- The program of `Module.doubling` does not go wrong within eight steps, and ends. -/
theorem Module.doubling_sound :
    (∃ found, doubling.resolve = .ok found) ∧
    (∀ n, doubling.generate.Sound
      (doubling.generate.runFor ⟨false, some 8⟩ n (.initial [] .empty))) ∧
    ¬(doubling.generate.runFor ⟨false, some 8⟩ 9 (.initial [] .empty)).GoesOn := by
  have hok : doubling.resolve.isOk = true := by decide +kernel
  obtain ⟨found, hfound⟩ : ∃ found, doubling.resolve = .ok found := by
    cases hr : doubling.resolve with
    | ok found => exact ⟨found, rfl⟩
    | error faults =>
      rw [hr] at hok
      cases hok
  have hsound := Module.runFor_sound hfound ⟨false, some 8⟩ [] .empty
  exact ⟨⟨found, hfound⟩, hsound.1, hsound.2 8 rfl⟩

end Scriptlet
