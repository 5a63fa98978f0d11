import Mathlib
import Scriptlet.Proofs.Accepted
import Scriptlet.Proofs.Containment
import Scriptlet.Proofs.Moves

/-!
# Programs without loops end

The machine goes from an instruction to those that may come next and, if it is a call, to the
beginning of a function.  If there is no endless way of this kind, every offset has a weight that
is more than the weights of all offsets it leads to, and every turn makes the weights of what is
still to be done less (`State.load_lt_of_turn`).  In the program of an accepted module without loops
all jumps lead forwards, and all calls from a function that does not call itself lead to functions
before it.  So every run ends, after a number of turns that depends on the module alone
(`Module.ends_of_loopless`).
-/

namespace Scriptlet

/-! ## Weights -/

namespace Program

/-- The offsets of the functions that an instruction may enter. -/
def entries (p : Program) (x : Instruction) : List Nat :=
  match x.op, p.constants[x.arg1]? with
  | .call, some (.str name) =>
    if (Builtin.ofName? name).isSome then []
    else ((p.function? name).map FunctionEntry.offset).toList
  | _, _ => []

/-- The offsets to which the instruction at an offset may lead. -/
def onward (p : Program) (i : Nat) : List Nat :=
  match p.code[i]? with
  | none => []
  | some x => x.successors i ++ p.entries x

variable {p : Program} {x : Instruction} {i j : Nat}

theorem onward_of_code (h : p.code[i]? = some x) : p.onward i = x.successors i ++ p.entries x := by
  rw [onward, h]

theorem entries_of_call {name : String} {entry : FunctionEntry} (hop : x.op = .call)
    (hname : p.constants[x.arg1]? = some (.str name)) (hbuiltin : Builtin.ofName? name = none)
    (hentry : p.function? name = some entry) : p.entries x = [entry.offset] := by
  simp only [entries, hop, hname, hbuiltin, hentry]
  rfl

/-- What may be entered is a function of the table with a name that is no built-in one. -/
theorem exists_of_mem_entries (h : j ∈ p.entries x) : x.op = .call ∧ ∃ name entry,
    p.constants[x.arg1]? = some (.str name) ∧ Builtin.ofName? name = none ∧
      p.function? name = some entry ∧ entry.offset = j := by
  unfold entries at h
  split at h
  · next name hop hname =>
    split at h
    · cases h
    · next hbuiltin =>
      obtain ⟨entry, hentry, hoffset⟩ := Option.map_eq_some_iff.mp (Option.mem_toList.mp h)
      exact ⟨hop, name, entry, hname, Option.not_isSome_iff_eq_none.mp hbuiltin, hentry, hoffset⟩
  · cases h

/-- Offsets have weights such that each has more than all it leads to, unless one leads on
forever. -/
theorem exists_weights (h : WellFounded fun j i => j ∈ p.onward i) :
    ∃ weight : Nat → Nat, ∀ i, ((p.onward i).map weight).sum < weight i := by
  let weight := h.fix fun i rest => ((p.onward i).attach.map fun j => rest j.1 j.2).sum + 1
  refine ⟨weight, fun i => ?_⟩
  have hweight : weight i = ((p.onward i).attach.map fun j => weight j.1).sum + 1 := h.fix_eq _ i
  rw [hweight, List.attach_map_val]
  exact Nat.lt_succ_self _

end Program

namespace State

/-- The weight of what is still to be done: to go on at hand and to come back to every caller. -/
def load (weight : Nat → Nat) (s : State) : Nat :=
  weight s.ip + ((s.frames.map Frame.returnTo).map weight).sum

variable {p : Program} {settings : Settings} {s s' : State} {weight : Nat → Nat}

/-- Every turn makes the load less. -/
theorem load_lt_of_turn (hweight : ∀ i, ((p.onward i).map weight).sum < weight i)
    (h : p.turn settings s = .next s') : s'.load weight < s.load weight := by
  obtain ⟨x, hcode, hmoves⟩ := Program.moves_of_turn h
  have hip := hweight s.ip
  rw [Program.onward_of_code hcode] at hip
  -- An offset weighs more than all places together that it leads to.
  have hlt : ∀ j ∈ x.successors s.ip ++ p.entries x, weight j < weight s.ip := fun j hj =>
    Nat.lt_of_le_of_lt (List.le_sum_of_mem (List.mem_map_of_mem hj)) hip
  unfold load
  cases hmoves with
  | on hop hnext hframes hglobals =>
    rw [hframes]
    exact Nat.add_lt_add_right (hlt _ (List.mem_append_left _ hnext)) _
  | @store name v hop hname hnext hframes hglobals =>
    have hcallers : s'.frames.map Frame.returnTo = s.frames.map Frame.returnTo := by
      rw [hframes, setVariable]
      cases s.frames <;> rfl
    have hmem : s.ip + 1 ∈ x.successors s.ip := by
      rw [Instruction.successors, hop]
      exact List.mem_singleton.mpr rfl
    rw [hcallers, hnext]
    exact Nat.add_lt_add_right (hlt _ (List.mem_append_left _ hmem)) _
  | @enter name entry args base hop hname hbuiltin hentry hnext hframes hglobals =>
    -- The weights of the place to return to and of the function replace that of the call.
    have hnexts : x.successors s.ip = [s.ip + 1] := by rw [Instruction.successors, hop]
    rw [hnexts, Program.entries_of_call hop hname hbuiltin hentry] at hip
    simp only [List.singleton_append, List.map_cons, List.map_nil, List.sum_cons, List.sum_nil]
      at hip
    rw [hnext, hframes, List.map_cons, List.map_cons, List.sum_cons]
    dsimp only
    omega
  | @leave frame hop hframes hnext hglobals =>
    rw [hframes, hnext, List.map_cons, List.map_cons, List.sum_cons]
    omega

/-- A run is over when as many turns were made as the load allows. -/
theorem ends_of_weights (hweight : ∀ i, ((p.onward i).map weight).sum < weight i)
    (settings : Settings) (s : State) : ¬(p.runFor settings (s.load weight) s).GoesOn := by
  have hrun : ∀ (n : Nat) {s s' : State}, p.runFor settings n s = .next s' →
      s'.load weight + n ≤ s.load weight := by
    intro n
    induction n with
    | zero =>
      rintro s s' ⟨⟩
      exact Nat.le_refl _
    | succ n ih =>
      intro s s' h
      obtain ⟨t, hturn, hrest⟩ := Program.exists_turn_of_runFor_succ h
      have hlt := load_lt_of_turn hweight hturn
      have hle := ih hrest
      omega
  rintro ⟨s', h⟩
  have hle := hrun _ h
  have hpos := hweight s'.ip
  rw [load] at hle
  omega

end State

/-! ## Jumps lead forwards -/

/-- Whether a statement is a loop. -/
def Stmt.isWhile : Stmt → Bool
  | .whileStmt _ _ _ => true
  | _ => false

section Forwards

variable {p : Program} {same : Literal → Literal → Prop}

mutual

/-- The jumps of a statement without loops lead forwards. -/
theorem Stmt.jumpsTo_forwards (inside : Bool) : ∀ (s : Stmt) (a : Nat), s.At p same none a →
    (∀ x ∈ ⟨s, inside, a⟩ :: s.inner inside a, x.stmt.isWhile = false) →
      p.JumpsTo a (a + s.width) fun i t => i < t
  | .letStmt _ _ none, a, _, _ => .nil a
  | .letStmt _ _ (some value), a, h, _ => by
    rw [Stmt.At] at h
    obtain ⟨hvalue, k, hcode, -⟩ := h
    rw [Stmt.width, ← Nat.add_assoc]
    exact (value.jumpsTo a hvalue).append (.plain hcode rfl)
  | .fnStmt _ _ _ body, a, h, hloops => by
    rw [Stmt.At] at h
    obtain ⟨hskip, hbody, hret⟩ := h
    rw [Stmt.inner] at hloops
    have hjumps := Stmt.jumpsTo_forwards_all true body (a + 1) hbody
      fun x hx => hloops x (List.mem_cons_of_mem _ hx)
    rw [Stmt.width, ← Nat.add_assoc, ← Nat.add_assoc]
    exact ((Program.JumpsTo.goto hskip (by omega)).append hjumps).append hret.jumpsTo
  | .returnStmt _ none, a, h, _ => by
    rw [Stmt.At] at h
    rw [Stmt.width, Expr.width?, Nat.zero_add]
    exact .plain h rfl
  | .returnStmt _ (some value), a, h, _ => by
    rw [Stmt.At] at h
    rw [Stmt.width, Expr.width?, ← Nat.add_assoc]
    exact (value.jumpsTo a h.1).append (.plain h.2 rfl)
  -- Outside of loops these are no jumps.
  | .breakStmt _, a, h, _ => by
    rw [Stmt.At] at h
    rw [Stmt.width]
    exact .plain h rfl
  | .continueStmt _, a, h, _ => by
    rw [Stmt.At] at h
    rw [Stmt.width]
    exact .plain h rfl
  | .ifStmt _ cond body, a, h, hloops => by
    rw [Stmt.At] at h
    obtain ⟨hcond, htest, hbody⟩ := h
    rw [Stmt.inner] at hloops
    have hjumps := Stmt.jumpsTo_forwards_all inside body _ hbody
      fun x hx => hloops x (List.mem_cons_of_mem _ hx)
    rw [Stmt.width, ← Nat.add_assoc, ← Nat.add_assoc]
    exact ((cond.jumpsTo a hcond).append (.goto htest (by omega))).append hjumps
  | .ifElseStmt _ cond body other, a, h, hloops => by
    rw [Stmt.At] at h
    obtain ⟨hcond, htest, hbody, hskip, hother⟩ := h
    rw [Stmt.inner] at hloops
    have hjumps := Stmt.jumpsTo_forwards_all inside body _ hbody
      fun x hx => hloops x (List.mem_cons_of_mem _ (List.mem_append_left _ hx))
    have hjumps' := Stmt.jumpsTo_forwards_all inside other _ hother
      fun x hx => hloops x (List.mem_cons_of_mem _ (List.mem_append_right _ hx))
    rw [Stmt.width, ← Nat.add_assoc, ← Nat.add_assoc, ← Nat.add_assoc, ← Nat.add_assoc]
    exact ((((cond.jumpsTo a hcond).append (.goto htest (by omega))).append hjumps).append
      (.goto hskip (by omega))).append hjumps'
  -- Only a loop jumps back, and there is none.
  | .whileStmt _ _ _, _, _, hloops => by cases hloops _ (List.mem_cons_self ..)
  | .exprStmt _ value, a, h, _ => by
    rw [Stmt.At] at h
    rw [Stmt.width, ← Nat.add_assoc]
    exact (value.jumpsTo a h.1).append (.plain h.2 rfl)

theorem Stmt.jumpsTo_forwards_all (inside : Bool) : ∀ (ss : List Stmt) (a : Nat),
    Stmt.AllAt p same none ss a → (∀ x ∈ Stmt.placed inside ss a, x.stmt.isWhile = false) →
      p.JumpsTo a (a + Stmt.widths ss) fun i t => i < t
  | [], a, _, _ => .nil a
  | s :: rest, a, h, hloops => by
    rw [Stmt.AllAt] at h
    rw [Stmt.placed] at hloops
    rw [Stmt.widths, ← Nat.add_assoc]
    exact (Stmt.jumpsTo_forwards inside s a h.1 fun x hx =>
      hloops x (List.mem_append_left _ hx)).append
        (Stmt.jumpsTo_forwards_all inside rest _ h.2 fun x hx =>
          hloops x (List.mem_append_right _ hx))

end

end Forwards

/-- A module has no loops. -/
def Module.Loopless (m : Module) : Prop := ∀ x ∈ m.placed, x.stmt.isWhile = false

/-- Without loops, whatever may come next in the call at hand stands further back. -/
theorem Module.Loopless.lt_of_successor {m : Module} (h : m.Loopless) {i j : Nat}
    {x : Instruction} (hcode : m.generate.code[i]? = some x) (hj : j ∈ x.successors i) : i < j := by
  have hjump : x.op.isJump = true → i < x.arg1 := by
    refine Stmt.jumpsTo_forwards_all false m.body 0 m.allAt_generate h i x (Nat.zero_le i) ?_ hcode
    rw [Nat.zero_add, ← m.size_generate]
    exact Program.lt_size_of_code hcode
  obtain ⟨op, k, n⟩ := x
  cases op with
  | jump =>
    rw [List.mem_singleton.mp hj]
    exact hjump rfl
  | jumpIfFalse =>
    rcases List.mem_cons.mp hj with rfl | hj
    · exact Nat.lt_succ_self i
    · rw [List.mem_singleton.mp hj]
      exact hjump rfl
  | ret => cases hj
  | _ =>
    rw [List.mem_singleton.mp hj]
    exact Nat.lt_succ_self i

/-! ## Calls lead backwards -/

mutual

/-- A function that a statement inside of another defines is one that the other defines. -/
theorem Stmt.mem_definitions_of_inner (inside : Bool) : ∀ (s : Stmt) (a : Nat) {f : String},
    ∀ x ∈ s.inner inside a, x.stmt.defines? = some f → f ∈ s.definitions.map Definition.name
  | .fnStmt _ _ _ body, a, f, x, hx, hf => by
    rw [Stmt.inner] at hx
    rw [Stmt.definitions, List.map_cons]
    exact List.mem_cons_of_mem _ (Stmt.mem_definitionsIn_of_placed true body _ x hx hf)
  | .ifStmt _ _ body, a, f, x, hx, hf => by
    rw [Stmt.inner] at hx
    rw [Stmt.definitions]
    exact Stmt.mem_definitionsIn_of_placed inside body _ x hx hf
  | .ifElseStmt _ _ body other, a, f, x, hx, hf => by
    rw [Stmt.inner] at hx
    rw [Stmt.definitions, List.map_append]
    rcases List.mem_append.mp hx with hx | hx
    · exact List.mem_append_left _ (Stmt.mem_definitionsIn_of_placed inside body _ x hx hf)
    · exact List.mem_append_right _ (Stmt.mem_definitionsIn_of_placed inside other _ x hx hf)
  | .whileStmt _ _ body, a, f, x, hx, hf => by
    rw [Stmt.inner] at hx
    rw [Stmt.definitions]
    exact Stmt.mem_definitionsIn_of_placed inside body _ x hx hf
  | .letStmt _ _ _, _, _, x, hx, _ | .returnStmt _ _, _, _, x, hx, _ | .breakStmt _, _, _, x, hx, _
  | .continueStmt _, _, _, x, hx, _ | .exprStmt _ _, _, _, x, hx, _ => by
    rw [Stmt.inner] at hx
    cases hx

theorem Stmt.mem_definitionsIn_of_placed (inside : Bool) : ∀ (ss : List Stmt) (a : Nat)
    {f : String}, ∀ x ∈ Stmt.placed inside ss a, x.stmt.defines? = some f →
      f ∈ (Stmt.definitionsIn ss).map Definition.name
  | [], _, _, x, hx, _ => by
    rw [Stmt.placed] at hx
    cases hx
  | s :: rest, a, f, x, hx, hf => by
    rw [Stmt.placed] at hx
    rw [Stmt.definitionsIn, List.map_append]
    rcases List.mem_append.mp hx with hx | hx
    · refine List.mem_append_left _ ?_
      rcases List.mem_cons.mp hx with rfl | hx
      · cases s with
        | fnStmt span name params body =>
          cases hf
          rw [Stmt.definitions]
          exact List.mem_cons_self ..
        | _ => cases hf
      · exact Stmt.mem_definitions_of_inner inside s a x hx hf
    · exact List.mem_append_right _ (Stmt.mem_definitionsIn_of_placed inside rest _ x hx hf)

end

theorem Stmt.placed_append (inside : Bool) (ss ts : List Stmt) (a : Nat) :
    Stmt.placed inside (ss ++ ts) a =
      Stmt.placed inside ss a ++ Stmt.placed inside ts (a + Stmt.widths ss) := by
  induction ss generalizing a with
  | nil => rfl
  | cons s rest ih =>
    rw [List.cons_append, Stmt.placed, ih, Stmt.placed, Stmt.widths, List.append_assoc,
      Nat.add_assoc]

theorem Stmt.definitionsIn_append (ss ts : List Stmt) :
    Stmt.definitionsIn (ss ++ ts) = Stmt.definitionsIn ss ++ Stmt.definitionsIn ts := by
  induction ss with
  | nil => rfl
  | cons s rest ih =>
    rw [List.cons_append, Stmt.definitionsIn, ih, Stmt.definitionsIn, List.append_assoc]

namespace Walk

variable {w : Walk} {outer : Scope} {fns : List (String × List String)}

/-- Statements in a scope of their own define no functions. -/
theorem defines?_of_scoped {around : Surroundings} {ss : List Stmt} {s : Scope}
    {inner : List Scope} (hs : w.table.Scoped (s :: inner) outer fns)
    (h : (w.block around ss).faults = []) (inside : Bool) (a : Nat) :
    ∀ x ∈ Stmt.placed inside ss a, x.stmt.defines? = none := by
  intro x hx
  have hnone := (passed_block around ss a hs h).outermost (List.cons_ne_nil _ _)
  rw [Option.eq_none_iff_forall_ne_some]
  intro f hf
  have hmem := Stmt.mem_definitionsIn_of_placed inside ss a x hx hf
  rw [hnone] at hmem
  cases hmem

/-- Inside of a statement no functions are defined. -/
theorem defines?_of_inner {inner : List Scope} {around : Surroundings} (s : Stmt)
    (hs : w.table.Scoped inner outer fns) (h : (w.stmt around s).faults = []) (inside : Bool)
    (a : Nat) : ∀ x ∈ s.inner inside a, x.stmt.defines? = none := by
  have hcond : ∀ cond, (w.expr cond).table.Scoped inner outer fns := by
    intro cond
    rwa [table_expr]
  cases s with
  | fnStmt span name params body =>
    obtain ⟨-, w', s, outer', hs', h', -⟩ := scoped_body hs h
    rw [Stmt.inner]
    exact defines?_of_scoped hs' h' true _
  | ifStmt span cond body =>
    rw [stmt] at h
    rw [Stmt.inner]
    exact defines?_of_scoped (scoped_enter .block ScopeKind.noConfusion (hcond cond)) h inside _
  | ifElseStmt span cond body other =>
    rw [stmt] at h
    rw [Stmt.inner]
    have hthen := faults_of_block around other h
    have hs₁ := scoped_enter .block ScopeKind.noConfusion (hcond cond)
    obtain ⟨-, ⟨inner₂, outer₂, -, hs₂⟩, -⟩ := (passed_block around body 0 hs₁ hthen).exit
    intro x hx
    rcases List.mem_append.mp hx with hx | hx
    · exact defines?_of_scoped hs₁ hthen inside _ x hx
    · exact defines?_of_scoped (scoped_enter .block ScopeKind.noConfusion hs₂) h inside _ x hx
  | whileStmt span cond body =>
    rw [stmt] at h
    rw [Stmt.inner]
    exact defines?_of_scoped (scoped_enter .block ScopeKind.noConfusion (hcond cond)) h inside _
  | letStmt | returnStmt | breakStmt | continueStmt | exprStmt =>
    rw [Stmt.inner]
    intro x hx
    cases hx

/-- A function stands among the statements of a block, and what is called in it is the function
itself or one that is defined before it. -/
theorem accepted_of_fn : ∀ (ss : List Stmt) (a : Nat) {w : Walk} {outer : Scope}
    {fns : List (String × List String)}, w.table.Scoped [] outer fns →
    (w.block ⟨0, false⟩ ss).faults = [] → ∀ x ∈ Stmt.placed false ss a, ∀ f,
      x.stmt.defines? = some f → ∃ before after params, ss = before ++ x.stmt :: after ∧
        x.offset = a + Stmt.widths before ∧ ∀ y ∈ x.stmt.inner x.inside x.offset,
          y.Accepted (fns ++ (Stmt.definitionsIn before).map Definition.signature ++ [(f, params)])
  | [], a, w, outer, fns, hs, h, x, hx, f, hf => by
    rw [Stmt.placed] at hx
    cases hx
  | s :: rest, a, w, outer, fns, hs, h, x, hx, f, hf => by
    rw [block] at h
    have hfirst := faults_of_block ⟨0, false⟩ rest h
    rw [Stmt.placed] at hx
    rcases List.mem_append.mp hx with hx | hx
    · rcases List.mem_cons.mp hx with rfl | hx
      · -- The statement itself defines the function, so only those before it and itself are known.
        cases s with
        | fnStmt span name params body =>
          cases hf
          obtain ⟨-, w', s, outer', hs', h', -⟩ := scoped_body hs hfirst
          refine ⟨[], rest, params, rfl, rfl, fun y hy => ?_⟩
          rw [Stmt.inner] at hy
          rw [Stmt.definitionsIn, List.map_nil, List.append_nil]
          exact (passed_block ⟨0, true⟩ body (a + 1) hs' h').exit.2.2 y hy
        | _ => cases hf
      · -- Functions are defined outside of all others, so none is defined inside of a statement.
        rw [defines?_of_inner s hs hfirst false a x hx] at hf
        cases hf
    · obtain ⟨inner', outer', hlen, hs'⟩ := (passed_stmt ⟨0, false⟩ s a hs hfirst).scopes
      rw [List.length_eq_zero_iff.mp hlen] at hs'
      obtain ⟨before, after, params, rfl, hoffset, haccepted⟩ :=
        accepted_of_fn rest (a + s.width) hs' h x hx f hf
      refine ⟨s :: before, after, params, rfl, ?_, fun y hy => ?_⟩
      · rw [hoffset, Stmt.widths, Nat.add_assoc]
      · rw [Stmt.definitionsIn, List.map_append, ← List.append_assoc]
        exact haccepted y hy

end Walk

/-- A module in which no function calls itself. -/
def Module.NoSelfCalls (m : Module) : Prop :=
  ∀ x ∈ m.placed, ∀ y ∈ x.stmt.inner x.inside x.offset, ∀ c ∈ y.stmt.calls,
    x.stmt.defines? ≠ some c.1

namespace Module

variable {m : Module}

/-- In an accepted module, what a function calls that does not call itself is defined before it. -/
theorem exists_earlier {found : Resolution} (h : m.resolve = .ok found) (hself : m.NoSelfCalls)
    {x : Placed} (hx : x ∈ m.placed) {f : String} (hf : x.stmt.defines? = some f) {y : Placed}
    (hy : y ∈ x.stmt.inner x.inside x.offset) {c : String × Nat} (hc : c ∈ y.stmt.calls)
    (hbuiltin : Builtin.ofName? c.1 = none) :
    ∃ before after, m.body = before ++ after ∧ x.offset = Stmt.widths before ∧
      c.1 ∈ (Stmt.definitionsIn before).map Definition.name := by
  have hfaults := walk_faults_of_resolve h
  obtain ⟨outer, hs⟩ : ∃ outer, Walk.initial.table.Scoped [] outer [] :=
    SymbolTable.Scoped.initial
  obtain ⟨before, after, params, hbody, hoffset, haccepted⟩ :=
    Walk.accepted_of_fn m.body 0 hs hfaults x hx f hf
  refine ⟨before, _, hbody, by rw [hoffset, Nat.zero_add], ?_⟩
  rw [List.nil_append] at haccepted
  rcases (haccepted y hy).1 c hc with hsome | ⟨params, hmem, -⟩
  · rw [hbuiltin] at hsome
    cases hsome
  · rcases List.mem_append.mp hmem with hmem | hmem
    · obtain ⟨d, hd, hsignature⟩ := List.mem_map.mp hmem
      exact List.mem_map.mpr ⟨d, hd, congrArg Prod.fst hsignature⟩
    · refine absurd ?_ (hself x hx y hy c hc)
      rw [hf, (Prod.mk.inj (List.mem_singleton.mp hmem)).1]

/-- The calls in the region of a function are written in the function. -/
theorem exists_call_of_mem_region {x : Placed} (hx : x ∈ m.placed) {f : String}
    (hf : x.stmt.defines? = some f) {i : Nat} (hi : i ∈ x.region) {y : Instruction}
    (hcode : m.generate.code[i]? = some y) (hop : y.op = .call) :
    ∃ name, m.generate.constants[y.arg1]? = some (.str name) ∧
      ∃ z ∈ x.stmt.inner x.inside x.offset, (name, y.arg2) ∈ z.stmt.calls := by
  obtain ⟨s, inside, a⟩ := x
  cases s with
  | fnStmt span name params body =>
    have hclosed := (functionRegion_of_placed hx).closed
    obtain ⟨hnoted, hstart, -⟩ := m.generate_noted.rests _ hx
    obtain ⟨l, hat⟩ := Stmt.at_of_mem_placed none false m.body 0 m.allAt_generate _ hx
    have hlt : a + 1 < a + (Stmt.fnStmt span name params body).width := hclosed.start_lt
    have hskip : m.generate.GotoAt .jump (a + (Stmt.fnStmt span name params body).width) a := by
      rw [Stmt.At] at hat
      rw [Stmt.width, ← Nat.add_assoc, ← Nat.add_assoc]
      exact hat.1
    -- Behind the function is where the jump over it leads, at a new beginning.
    obtain ⟨-, hleads⟩ := (m.generate_noted.fits hskip).next _ (List.mem_singleton.mpr rfl)
    have hend : m.note (a + (Stmt.fnStmt span name params body).width) =
        .rest inside (a + (Stmt.fnStmt span name params body).width) := by
      have hstart : m.note a = .rest inside a := hstart
      have hinside := hleads.inside
      have hdepth := hleads.depth
      have hhome := hleads.home.resolve_left fun h => Nat.ne_of_gt hlt h.1
      dsimp only at hinside hdepth hhome
      rw [hstart] at hinside hdepth
      cases hnote : m.note (a + (Stmt.fnStmt span name params body).width) with
      | mk depth inside' home =>
        rw [hnote] at hinside hdepth hhome
        cases hinside
        cases hdepth
        cases hhome
        rfl
    have hbody : (Stmt.fnStmt span name params body).At m.generate (fun _ _ => True) none a := by
      rw [Stmt.At] at hat ⊢
      exact hat
    have hcovers := Stmt.covers none inside (fun l hl => absurd hl.symm (Option.some_ne_none l)) _ a
      hbody hnoted (.of_rest hend) hclosed.finish_le fun _ hz => hz
    obtain ⟨y', hcode', hfits⟩ := hcovers.fits i (Nat.le_of_succ_le hi.1) hi.2
    rw [hcode] at hcode'
    cases hcode'
    obtain ⟨-, name', hname', z, hz, hcall⟩ := hfits.call hop
    rcases List.mem_cons.mp hz with rfl | hz
    · cases hcall
    · exact ⟨name', hname', z, hz, hcall⟩
  | _ => cases hf

/-- The function that is called from the region of another ends before it. -/
theorem exists_region_of_call {found : Resolution} (h : m.resolve = .ok found)
    (hself : m.NoSelfCalls) {r : Region} (hr : m.FunctionRegion r) {i j : Nat} (hi : i ∈ r)
    {y : Instruction} (hcode : m.generate.code[i]? = some y) (hj : j ∈ m.generate.entries y) :
    ∃ r', m.FunctionRegion r' ∧ j ∈ r' ∧ r'.finish < r.finish := by
  obtain ⟨span, f, params, body, inside, a, hx, rfl⟩ := hr.exists_placed
  obtain ⟨hop, name, entry, hname, hbuiltin, hentry, rfl⟩ := Program.exists_of_mem_entries hj
  obtain ⟨name', hname', z, hz, hcall⟩ := exists_call_of_mem_region hx rfl hi hcode hop
  rw [hname] at hname'
  cases hname'
  -- What is called is defined before the function that calls it.
  obtain ⟨before, after, hbody, hoffset, hearlier⟩ :=
    exists_earlier h hself hx rfl hz hcall hbuiltin
  obtain ⟨x, hplaced, hdefines, hstart⟩ := exists_placed_of_entry hentry
  have hregion : m.FunctionRegion x.region := functionRegion_of_defines hplaced hdefines
  rw [Module.placed, hbody, Stmt.placed_append] at hplaced
  rcases List.mem_append.mp hplaced with hplaced | hplaced
  · have hbounds := Stmt.bounds_of_mem_placed false before 0 x hplaced
    have hlt := hregion.closed.start_lt
    have hlt' := hr.closed.start_lt
    have hbegin : (Placed.region ⟨.fnStmt span f params body, inside, a⟩).start = a + 1 := rfl
    dsimp only at hoffset
    refine ⟨x.region, hregion, ?_, by omega⟩
    rw [hstart, Region.mem_def]
    exact ⟨Nat.le_refl _, hlt⟩
  · -- The name would be defined twice.
    have hlater := Stmt.mem_definitionsIn_of_placed false after _ x hplaced hdefines
    have hdistinct := (Module.resolve_ok h).1
    rw [hbody, Stmt.definitionsIn_append, List.map_append, List.nodup_append] at hdistinct
    exact absurd rfl (hdistinct.2.2 name hearlier name hlater)

/-! ## Every way ends -/

/-- If some offsets lead forwards among themselves or to where every way ends, every way from them
ends. -/
theorem acc_of_forwards {p : Program} {P : Nat → Prop} {bound : Nat} (hbound : ∀ i, P i → i < bound)
    (h : ∀ i, P i → ∀ j ∈ p.onward i, i < j ∧ P j ∨ Acc (fun j i => j ∈ p.onward i) j) :
    ∀ i, P i → Acc (fun j i => j ∈ p.onward i) i := by
  intro i hi
  induction hrest : bound - i using Nat.strongRecOn generalizing i with
  | ind rest ih =>
    refine ⟨i, fun j hj => ?_⟩
    rcases h i hi j hj with ⟨hlt, hj⟩ | hacc
    · have hi := hbound i hi
      exact ih (bound - j) (by omega) j hj rfl
    · exact hacc

/-- In an accepted module without loops and self-calls, every way through its program ends. -/
theorem wellFounded_onward {found : Resolution} (h : m.resolve = .ok found) (hloops : m.Loopless)
    (hself : m.NoSelfCalls) : WellFounded fun j i => j ∈ m.generate.onward i := by
  -- Inside of functions, by induction on where they end: a call leads to a function that ends
  -- earlier, and everything else leads forwards in the same function.
  have hregion : ∀ n r, m.FunctionRegion r → r.finish = n → ∀ i ∈ r,
      Acc (fun j i => j ∈ m.generate.onward i) i := by
    intro n
    induction n using Nat.strongRecOn with
    | ind n ih =>
      rintro r hr rfl
      refine acc_of_forwards (fun i hi => hi.2) fun i hi j hj => ?_
      have hlt := Nat.lt_of_lt_of_le hi.2 hr.closed.finish_le
      have hcode := Array.getElem?_eq_getElem hlt
      rw [Program.onward_of_code hcode] at hj
      rcases List.mem_append.mp hj with hj | hj
      · exact .inl ⟨hloops.lt_of_successor hcode hj, (SameRegions.of_successor hcode hj r hr).mp hi⟩
      · obtain ⟨r', hr', hmem, hlt⟩ := exists_region_of_call h hself hr hi hcode hj
        exact .inr (ih r'.finish hlt r' hr' rfl j hmem)
  -- Outside of functions code leads forwards as well, or into a function.
  have houtside : ∀ i, i ≤ m.generate.code.size ∧ (∀ r, m.FunctionRegion r → ¬i ∈ r) →
      Acc (fun j i => j ∈ m.generate.onward i) i := by
    refine acc_of_forwards (fun i hi => Nat.lt_succ_of_le hi.1) fun i ⟨_, hi⟩ j hj => ?_
    cases hcode : m.generate.code[i]? with
    | none =>
      rw [Program.onward, hcode] at hj
      cases hj
    | some x =>
      rw [Program.onward_of_code hcode] at hj
      rcases List.mem_append.mp hj with hj | hj
      · refine .inl ⟨hloops.lt_of_successor hcode hj, ((m.generate_noted.fits hcode).next j hj).1,
          fun r hr hmem => hi r hr ?_⟩
        exact (SameRegions.of_successor hcode hj r hr).mpr hmem
      · obtain ⟨-, name, entry, -, -, hentry, rfl⟩ := Program.exists_of_mem_entries hj
        obtain ⟨r, hr, hstart⟩ := functionRegion_of_entry hentry
        exact .inr (hregion _ r hr rfl _ ⟨Nat.le_of_eq hstart, hstart ▸ hr.closed.start_lt⟩)
  refine ⟨fun i => ?_⟩
  by_cases hi : i < m.generate.code.size
  · by_cases hmem : ∃ r, m.FunctionRegion r ∧ i ∈ r
    · obtain ⟨r, hr, hmem⟩ := hmem
      exact hregion _ r hr rfl i hmem
    · exact houtside i ⟨Nat.le_of_lt hi, fun r hr hin => hmem ⟨r, hr, hin⟩⟩
  · -- Behind the code nothing follows.
    refine ⟨i, fun j hj => ?_⟩
    rw [Program.onward, Array.getElem?_eq_none (Nat.le_of_not_lt hi)] at hj
    cases hj

/-- If the names of a module can be resolved, it has no loops and no function in it calls itself,
every run of its program ends, with success or with a fault.  How many turns that takes at most
depends on the module alone. -/
theorem ends_of_loopless {found : Resolution} (h : m.resolve = .ok found) (hloops : m.Loopless)
    (hself : m.NoSelfCalls) :
    ∃ n, ∀ settings input globals,
      ¬(m.generate.runFor settings n (.initial input globals)).GoesOn := by
  obtain ⟨weight, hweight⟩ := Program.exists_weights (wellFounded_onward h hloops hself)
  exact ⟨weight 0, fun settings input globals =>
    State.ends_of_weights hweight settings (.initial input globals)⟩

/-- Three functions, the first with a branch, and each of the others with two calls of the one
before it. -/
def cascade : Module where
  body := [
    .fnStmt .zero "f" ["n"] [
      .ifElseStmt .zero (.name .zero 0 "n")
        [.returnStmt .zero (some (.call .zero 1 "input" []))] [.letStmt .zero "a" none]],
    .fnStmt .zero "g" ["n"] [
      .returnStmt .zero (some (.binary .zero .add (.call .zero 3 "f" [.name .zero 2 "n"])
        (.call .zero 5 "f" [.name .zero 4 "n"])))],
    .fnStmt .zero "h" ["n"] [
      .exprStmt .zero (.call .zero 7 "g" [.name .zero 6 "n"]),
      .exprStmt .zero (.call .zero 9 "g" [.name .zero 8 "n"])],
    .exprStmt .zero (.call .zero 10 "h" [.literal .zero (.bool true)])]
  nodeCount := 11

/-- Every run of `cascade` ends. -/
theorem cascade_ends :
    (∃ found, cascade.resolve = .ok found) ∧ cascade.Loopless ∧ cascade.NoSelfCalls ∧
    ∃ n, ∀ settings input globals,
      ¬(cascade.generate.runFor settings n (.initial input globals)).GoesOn := by
  have hok : cascade.resolve.isOk = true := by decide +kernel
  have hloops : cascade.Loopless := by
    unfold Loopless
    decide +kernel
  have hself : cascade.NoSelfCalls := by
    unfold NoSelfCalls
    decide +kernel
  cases h : cascade.resolve with
  | error faults =>
    rw [h] at hok
    cases hok
  | ok found => exact ⟨⟨found, rfl⟩, hloops, hself, ends_of_loopless h hloops hself⟩

end Module

end Scriptlet
