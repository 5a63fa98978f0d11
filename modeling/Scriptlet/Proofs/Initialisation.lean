import Scriptlet.Proofs.Moves
import Scriptlet.Proofs.Tracking

/-!
# Variables have values before they are used

In every state that a run comes to, the variables that the next instruction is supplied with have
values, and so it will be for every call that waits when its callee comes back (`State.Supplied`).
A turn keeps this, so the machine never falls back on null for a name that stands for a variable
(`Module.load_initialised`).
-/

namespace Scriptlet

/-! ## Supplied states -/

/-- A variable has a value. -/
def Variables.Has (vars : Variables) (name : String) : Prop := vars.find? name ≠ none

theorem Variables.Has.insert {vars : Variables} {name : String} (h : vars.Has name) (x : String)
    (v : Value) : Variables.Has (vars.insert x v) name := by
  rw [Has, SortedMap.find?_insert]
  split
  · nofun
  · exact h

theorem Variables.has_insert (vars : Variables) (x : String) (v : Value) :
    Variables.Has (vars.insert x v) x := by
  rw [Has, SortedMap.find?_insert, if_pos rfl]
  nofun

/-- Parameters that are bound one after the other have values, and so has what had one before. -/
theorem Variables.has_bindAll (params : List String) (args : List Value) {vars : Variables}
    {name : String} (h : name ∈ params ∨ vars.Has name) :
    Variables.Has (bindAll params args vars) name := by
  induction params generalizing args vars with
  | nil =>
    rcases h with h | h
    · cases h
    · exact h
  | cons param params ih =>
    rcases h with h | h
    · rcases List.mem_cons.mp h with rfl | h
      · exact ih _ (.inr (vars.has_insert _ _))
      · exact ih _ (.inl h)
    · exact ih _ (.inr (h.insert _ _))

/-- Every parameter has a value when a call starts. -/
theorem Variables.has_bindParameters {params : List String} (args : List Value) {name : String}
    (h : name ∈ params) : Variables.Has (State.bindParameters params args) name := by
  rw [bindParameters_eq_bindAll]
  exact has_bindAll params args (.inl h)

/-- The call at hand has values for the names of a supply, and so it will be for every call that
waits, with the supply of the instruction where it goes on. -/
def Provided (supply : Nat → Supply) (globals : Variables) : List Frame → Supply → Prop
  | [], n => n.locals = none ∧ ∀ x ∈ n.globals, globals.Has x
  | frame :: frames, n =>
    (∃ names, n.locals = some names ∧ ∀ x ∈ names, frame.locals.Has x) ∧
      (∀ x ∈ n.globals, globals.Has x) ∧ Provided supply globals frames (supply frame.returnTo)

/-- The variables with which the next instruction is supplied have values. -/
def State.Supplied (s : State) (supply : Nat → Supply) : Prop :=
  Provided supply s.globals s.frames (supply s.ip)

/-- The innermost call has a value for a name, or there is one outside all calls. -/
def State.Holds (s : State) (name : String) : Prop :=
  (∃ frame ∈ s.frames.head?, frame.locals.Has name) ∨ s.globals.Has name

section Supplied

variable {supply : Nat → Supply} {globals : Variables} {frames : List Frame} {n : Supply}

namespace Provided

/-- What is outside all calls has values in every call. -/
theorem has_globals (h : Provided supply globals frames n) : ∀ x ∈ n.globals, globals.Has x := by
  cases frames with
  | nil => exact h.2
  | cons frame frames => exact h.2.1

/-- Nothing more is asked for. -/
theorem within (h : Provided supply globals frames n) {n' : Supply} (hwithin : n'.Within n) :
    Provided supply globals frames n' := by
  have hplace := hwithin.place
  have hlocals := hwithin.locals
  cases frames with
  | nil =>
    rw [h.1] at hplace
    exact ⟨Option.isNone_iff_eq_none.mp (Option.isSome_eq_false_iff.mp hplace),
      fun x hx => h.2 x (hwithin.globals hx)⟩
  | cons frame frames =>
    obtain ⟨⟨names, hnames, hhas⟩, hglobals, hrest⟩ := h
    rw [hnames] at hplace hlocals
    obtain ⟨names', hnames'⟩ := Option.isSome_iff_exists.mp hplace
    rw [hnames'] at hlocals
    exact ⟨⟨names', hnames', fun x hx => hhas x (hlocals hx)⟩,
      fun x hx => hglobals x (hwithin.globals hx), hrest⟩

/-- One more variable has a value when it is written. -/
theorem store {s : State} (h : Provided supply s.globals s.frames n) (name : String) (v : Value) :
    Provided supply (s.setVariable name v).globals (s.setVariable name v).frames
      (n.store name) := by
  unfold State.setVariable
  cases hframes : s.frames with
  | nil =>
    rw [hframes] at h
    rw [Supply.store, h.1]
    refine ⟨rfl, fun x hx => ?_⟩
    rcases List.mem_cons.mp hx with rfl | hx
    · exact s.globals.has_insert _ _
    · exact (h.2 x hx).insert _ _
  | cons frame frames =>
    rw [hframes] at h
    obtain ⟨⟨names, hnames, hhas⟩, hrest⟩ := h
    rw [Supply.store, hnames]
    refine ⟨⟨_, rfl, fun x hx => ?_⟩, hrest⟩
    rcases List.mem_cons.mp hx with rfl | hx
    · exact frame.locals.has_insert _ _
    · exact (hhas x hx).insert _ _

/-- A name of the supply has a value. -/
theorem holds {s : State} (h : Provided supply s.globals s.frames n) {name : String}
    (hname : name ∈ n.names) : s.Holds name := by
  rcases List.mem_append.mp hname with hname | hname
  · left
    cases hframes : s.frames with
    | nil =>
      rw [hframes] at h
      rw [h.1] at hname
      cases hname
    | cons frame frames =>
      rw [hframes] at h
      obtain ⟨⟨names, hnames, hhas⟩, -⟩ := h
      rw [hnames] at hname
      exact ⟨frame, rfl, hhas name hname⟩
  · exact .inr (h.has_globals name hname)

end Provided

/-! ## Runs -/

namespace Program.Tracked

variable {p : Program} {uses : List (Nat × Declaration)} {loads : List Load} {settings : Settings}
  {s s' : State}

/-- A turn keeps the next instruction supplied. -/
theorem supplied_turn (hp : p.Tracked supply uses loads 0 p.code.size) (hs : s.Supplied supply)
    (h : p.turn settings s = .next s') : s'.Supplied supply := by
  obtain ⟨x, hcode, hmoves⟩ := moves_of_turn h
  obtain ⟨y, hy, htracks, -⟩ := hp.tracks s.ip (Nat.zero_le _) (lt_size_of_code hcode)
  rw [hcode] at hy
  cases hy
  unfold State.Supplied at hs ⊢
  cases hmoves with
  | on hop hip hframes hglobals =>
    rw [hframes, hglobals]
    exact hs.within (htracks.next hop _ hip)
  | @store name v hop hname hip hframes hglobals =>
    obtain ⟨name', hname', hwithin⟩ := htracks.store hop
    rw [hname] at hname'
    cases hname'
    rw [hframes, hglobals, hip]
    exact (hs.store name v).within hwithin
  | @enter name entry args base hop hname hbuiltin hentry hip hframes hglobals =>
    -- The caller will go on behind the call, with what it has.
    have hreturn : (supply (s.ip + 1)).Within (supply s.ip) := by
      refine htracks.next (by rw [hop]; nofun) _ ?_
      rw [Instruction.successors, hop]
      exact List.mem_singleton.mpr rfl
    rw [hframes, hglobals, hip]
    have hentered : Provided supply s.globals (⟨s.ip + 1, _, base⟩ :: s.frames)
        ((supply s.ip).entered entry.params) :=
      ⟨⟨entry.params, rfl, fun y hy => Variables.has_bindParameters args hy⟩, hs.has_globals,
        hs.within hreturn⟩
    exact hentered.within (htracks.call hop hname hbuiltin hentry)
  | leave hop hframes hip hglobals =>
    rw [hframes] at hs
    rw [hglobals, hip]
    exact hs.2.2

/-- All instructions that a run comes to are supplied. -/
theorem supplied_run (hp : p.Tracked supply uses loads 0 p.code.size) (hs : s.Supplied supply)
    {n : Nat} (h : p.runFor settings n s = .next s') : s'.Supplied supply :=
  runFor_invariant (I := fun s => s.Supplied supply) (fun hs h => hp.supplied_turn hs h) hs h

end Program.Tracked

end Supplied

/-- A program starts with nothing supplied. -/
theorem Module.supplied_initial {m : Module} (hinit : m.Initialised) (input : List UInt8)
    (globals : Variables) : (State.initial input globals).Supplied m.supply := by
  have hstart : (m.supply 0).Within .empty := by
    refine Stmt.within_start (fun s hs => hinit _ (Placed.head?_placed hs)) m.noted_supply
      fun _ => ?_
    rw [m.supply_widths]
    exact .refl _
  have hempty : Provided m.supply globals [] .empty := ⟨rfl, nofun⟩
  exact hempty.within hstart

/-- The symbol that a use of a name is bound to. -/
def Resolution.symbol? (found : Resolution) (node : Nat) : Option Symbol :=
  (found.bindings.find? node).bind fun k => found.table.symbols[k]?

/-- In the program of a module that is accepted, and in which all variables are declared with
values, every instruction that loads a variable was generated for a use of the name.  If this use is
bound to a variable, the name has a value whenever a run comes to the instruction. -/
theorem Module.load_initialised {m : Module} {found : Resolution} (h : m.resolve = .ok found)
    (hinit : m.Initialised) (hnodes : m.nodes.Nodup) :
    (∀ i x, m.generate.VariableAt .loadVar x i → ∃ l ∈ m.loads, l.offset = i ∧ l.name = x) ∧
    ∀ l ∈ m.loads, m.generate.VariableAt .loadVar l.name l.offset ∧
      ∃ symbol, found.symbol? l.node = some symbol ∧
        (symbol.kind = .variable → ∀ settings input globals n s,
          m.generate.runFor settings n (.initial input globals) = .next s → s.ip = l.offset →
            s.Holds l.name) := by
  have hp := Module.tracked_body h hinit
  constructor
  · rintro i x ⟨k, hcode, hname⟩
    obtain ⟨y, hy, -, hload⟩ := hp.tracks i (Nat.zero_le i) (Program.lt_size_of_code hcode)
    rw [hcode] at hy
    cases hy
    obtain ⟨l, hl, rfl⟩ := hload rfl
    obtain ⟨⟨k', hcode', hname'⟩, -⟩ := hp.loads l hl
    rw [hcode] at hcode'
    cases hcode'
    rw [hname] at hname'
    exact ⟨l, hl, rfl, (Option.some.inj hname').symm⟩
  · intro l hl
    obtain ⟨hat, d, hd, hsupply⟩ := hp.loads l hl
    obtain ⟨hbound, scope, hsymbol⟩ := Module.bound_of_resolve h hnodes _ hd
    refine ⟨hat, ⟨d.name, d.kind, d.span, scope⟩, ?_, ?_⟩
    · rw [Resolution.symbol?, hbound]
      exact hsymbol
    · intro hkind settings input globals n s hs hip
      -- All along a run there is what the supplies say.
      have hsupplied := hp.supplied_run (Module.supplied_initial hinit input globals) hs
      refine hsupplied.holds ?_
      rw [hip]
      exact hsupply hkind

/-- A loop that calls a function, which uses its parameter, a variable of a block and one from
outside. -/
def Module.counting : Module where
  body := [
    .letStmt .zero "step" (some (.literal .zero (.int 1))),
    .fnStmt .zero "next" ["n"] [
      .ifStmt .zero (.name .zero 0 "step") [
        .letStmt .zero "sum" (some (.binary .zero .add (.name .zero 1 "n") (.name .zero 2 "step"))),
        .returnStmt .zero (some (.name .zero 3 "sum"))],
      .returnStmt .zero (some (.name .zero 4 "n"))],
    .letStmt .zero "i" (some (.literal .zero (.int 0))),
    .whileStmt .zero (.binary .zero .lt (.name .zero 5 "i") (.literal .zero (.int 3))) [
      .letStmt .zero "i" (some (.call .zero 7 "next" [.name .zero 6 "i"]))]]
  nodeCount := 8

/-- Whenever `next` returns the sum, the sum is there. -/
theorem Module.counting_initialised :
    counting.Initialised ∧ counting.nodes.Nodup ∧ ∃ found, counting.resolve = .ok found ∧
      ∀ settings input globals n s,
        counting.generate.runFor settings n (.initial input globals) = .next s → s.ip = 9 →
          s.Holds "sum" := by
  have hinit : counting.Initialised := by decide +kernel
  have hnodes : counting.nodes.Nodup := by decide +kernel
  have hload : (⟨9, 3, "sum"⟩ : Load) ∈ counting.loads := by decide +kernel
  have hkind : (counting.resolve.toOption.bind (·.symbol? 3)).map Symbol.kind = some .variable := by
    decide +kernel
  cases hr : counting.resolve with
  | error faults =>
    rw [hr] at hkind
    cases hkind
  | ok found =>
    obtain ⟨-, symbol, hsymbol, hholds⟩ := (Module.load_initialised hr hinit hnodes).2 _ hload
    rw [hr, Except.toOption, Option.bind_some, hsymbol] at hkind
    exact ⟨hinit, hnodes, found, rfl, hholds (Option.some.inj hkind)⟩

end Scriptlet
