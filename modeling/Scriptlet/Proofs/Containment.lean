import Scriptlet.Proofs.Backpatch
import Scriptlet.Proofs.Balance
import Scriptlet.Proofs.Ranges
import Scriptlet.Proofs.Regions
import Scriptlet.Proofs.SortedEntries

/-!
# Functions are entered by calls and left by returns

Every operand of a generated program is in range.  Since no jump crosses the border of a function
and no function is left at its end, the machine passes such a border only when it calls or returns
(`Module.Passes`).  So as long as a call lasts, the machine is in the function that was called
whenever it works on that call (`Module.generate_contained`).
-/

namespace Scriptlet

/-! ## Generated programs are in range -/

namespace Program

mutual

/-- Generation keeps the function table in order. -/
theorem ordered_stmt (p : Program) (around : Option LoopBounds) (h : p.functions.Ordered) :
    ∀ s : Stmt, (p.stmt around s).functions.Ordered
  | .letStmt _ name none => by
    rwa [stmt, functions_addVariable]
  | .letStmt _ name (some value) => by
    rw [← functions_expr p value, ← functions_addVariable _ name] at h
    rwa [stmt]
  | .fnStmt _ name params body => by
    rw [stmt, functions_ite_plain]
    exact ordered_block _ none (h.insert name ⟨p.offset + 1, params⟩) body
  | .returnStmt _ none => by
    rwa [stmt]
  | .returnStmt _ (some value) => by
    rw [← functions_expr p value] at h
    rwa [stmt]
  | .breakStmt _ => by
    cases around with
    | none => rwa [stmt]
    | some l => rwa [stmt]
  | .continueStmt _ => by
    cases around with
    | none => rwa [stmt]
    | some l => rwa [stmt]
  | .ifStmt _ cond body => by
    rw [← functions_expr p cond] at h
    rw [stmt]
    apply ordered_block
    exact h
  | .ifElseStmt _ cond body other => by
    rw [← functions_expr p cond] at h
    rw [stmt]
    apply ordered_block
    apply ordered_block
    exact h
  | .whileStmt _ cond body => by
    rw [← functions_expr p cond] at h
    rw [stmt]
    apply ordered_block
    exact h
  | .exprStmt _ value => by
    rw [← functions_expr p value] at h
    rwa [stmt]

theorem ordered_block (p : Program) (around : Option LoopBounds) (h : p.functions.Ordered) :
    ∀ ss : List Stmt, (p.block around ss).functions.Ordered
  | [] => by
    rwa [block]
  | s :: rest => by
    rw [block]
    exact ordered_block _ around (ordered_stmt p around h s) rest

end

end Program

namespace Module

theorem function?_of_mem_entries {m : Module} {e : String × FunctionEntry}
    (h : e ∈ m.generate.functions.entries) : m.generate.function? e.1 = some e.2 :=
  (Program.ordered_block Program.empty none SortedMap.ordered_empty m.body).find?_of_mem h

/-- Every operand of a generated program points into its pool. -/
theorem generate_inRange (m : Module) : m.generate.InRange := by
  have hp := m.generate_noted
  refine ⟨fun e he => (hp.entry (function?_of_mem_entries he)).1, ?_⟩
  intro i x hcode limit hlimit
  -- Every instruction fits its note, which says what its operand leads to.
  have hfits := hp.fits hcode
  have hconstant : ∀ {v}, m.generate.constants[x.arg1]? = some v →
      x.arg1 < m.generate.constants.size := fun h => (Array.getElem?_eq_some_iff.mp h).1
  have hvariable : ∀ {v}, m.generate.variableNames[x.arg1]? = some v →
      x.arg1 < m.generate.variableNames.size := fun h => (Array.getElem?_eq_some_iff.mp h).1
  have htarget : x.arg1 ∈ x.successors i → x.arg1 < m.generate.code.size + 1 :=
    fun h => Nat.lt_succ_of_le (hfits.next _ h).1
  obtain ⟨op, k, n⟩ := x
  cases op with
  | loadConst =>
    obtain ⟨v, hv⟩ := hfits.constant rfl
    cases hlimit
    exact hconstant hv
  | call =>
    obtain ⟨-, name, hname, -⟩ := hfits.call rfl
    cases hlimit
    exact hconstant hname
  | loadVar =>
    obtain ⟨name, hname⟩ := hfits.loaded rfl
    cases hlimit
    exact hvariable hname
  | storeVar =>
    obtain ⟨name, hname⟩ := hfits.stored rfl
    cases hlimit
    exact hvariable hname
  | jump =>
    cases hlimit
    exact htarget (List.mem_singleton.mpr rfl)
  | jumpIfFalse =>
    cases hlimit
    exact htarget (List.mem_cons_of_mem _ (List.mem_singleton.mpr rfl))
  | _ => cases hlimit

/-! ## Offsets in the same functions -/

/-- Two offsets lie in the same functions. -/
def SameRegions (m : Module) (i j : Nat) : Prop := ∀ r, m.FunctionRegion r → r.Together i j

namespace SameRegions

variable {m : Module} {i j k : Nat}

theorem refl (m : Module) (i : Nat) : m.SameRegions i i := fun _ _ => Iff.rfl

theorem trans (h : m.SameRegions i j) (h' : m.SameRegions j k) : m.SameRegions i k :=
  fun r hr => (h r hr).trans (h' r hr)

/-- An instruction that neither jumps nor returns leads to the next one of the same functions. -/
theorem succ {x : Instruction} (hcode : m.generate.code[i]? = some x) (hjump : x.op ≠ .jump)
    (hret : x.op ≠ .ret) : m.SameRegions i (i + 1) := by
  intro r hr
  have hclosed := hr.closed
  obtain ⟨a, hstart, hskip⟩ := hr.skip
  have hlast := hclosed.last
  -- Neither the jump over the function nor its last instruction is the one at hand.
  have hfirst : i ≠ a := by
    rintro rfl
    rw [Program.GotoAt, hcode] at hskip
    cases hskip
    exact hjump rfl
  have hend : i ≠ r.finish - 1 := by
    rintro rfl
    rw [Program.PlainAt, hcode] at hlast
    cases hlast
    exact hret rfl
  have hlt := hclosed.start_lt
  rw [Region.Together, Region.mem_def, Region.mem_def]
  omega

/-- Whatever may come next in the call at hand belongs to the same functions. -/
theorem of_successor {x : Instruction} (hcode : m.generate.code[i]? = some x)
    (hj : j ∈ x.successors i) : m.SameRegions i j := by
  obtain ⟨op, k, n⟩ := x
  have htarget : op.isJump = true → m.SameRegions i k := fun hop r hr =>
    hr.closed.jump hcode hop
  cases op with
  | jump =>
    rw [List.mem_singleton.mp hj]
    exact htarget rfl
  | jumpIfFalse =>
    rcases List.mem_cons.mp hj with rfl | hj
    · exact succ hcode nofun nofun
    · rw [List.mem_singleton.mp hj]
      exact htarget rfl
  | ret => cases hj
  | _ =>
    rw [List.mem_singleton.mp hj]
    exact succ hcode nofun nofun

end SameRegions

/-! ## Turns and runs -/

/-- How a turn passes from one function to another, if it does. -/
inductive Passes (m : Module) (s s' : State) : Prop
  /-- The call at hand goes on in the same functions. -/
  | stays (hip : m.SameRegions s.ip s'.ip)
      (hframes : s'.frames.map Frame.returnTo = s.frames.map Frame.returnTo)
  /-- A call goes to the first instruction of a function, and will come back to the functions that
  it was made from. -/
  | enters {x : Instruction} {r : Region} {frame : Frame}
      (hcode : m.generate.code[s.ip]? = some x) (hop : x.op = .call) (hr : m.FunctionRegion r)
      (hip : s'.ip = r.start) (hframes : s'.frames = frame :: s.frames)
      (hback : m.SameRegions s.ip frame.returnTo)
  /-- A return goes to where the call at hand was made. -/
  | leaves {x : Instruction} {frame : Frame} (hcode : m.generate.code[s.ip]? = some x)
      (hop : x.op = .ret) (hframes : s.frames = frame :: s'.frames) (hip : s'.ip = frame.returnTo)

/-- Every turn of a generated program stays, enters or leaves. -/
theorem passes_turn (m : Module) {settings : Settings} {s s' : State}
    (hb : s.Balanced m.generate m.note) (h : m.generate.turn settings s = .next s') :
    m.Passes s s' := by
  obtain ⟨x, hcode, heffect⟩ := m.generate_noted.effect_of_turn hb h
  cases heffect with
  | step given hcontext hip hgiven hstack =>
    refine .stays (.of_successor hcode hip) ?_
    cases hf : s.frames with
    | nil => rw [State.frames_eq_nil_of_context hcontext hf]
    | cons frame frames =>
      obtain ⟨vars, hf'⟩ := State.frames_of_context hcontext hf
      rw [hf']
      rfl
  | @enter name entry hop hname hbuiltin hentry =>
    obtain ⟨r, hr, hstart⟩ := functionRegion_of_entry hentry
    have hback : m.SameRegions s.ip (s.ip + 1) :=
      .succ hcode (by rw [hop]; nofun) (by rw [hop]; nofun)
    exact .enters hcode hop hr hstart.symm rfl hback
  | @leave frame frames hop hframes => exact .leaves hcode hop hframes rfl

/-- A state of a run, seen from a state that the run has passed before: the call that was at hand is
still there, and it will go on, or goes on, in the functions it was in. -/
def Lasts (m : Module) (s t : State) : Prop :=
  ∃ inner ip outer, t.ip :: t.frames.map Frame.returnTo = inner ++ ip :: outer ∧
    outer.length = s.frames.length ∧ m.SameRegions s.ip ip

theorem Lasts.refl (m : Module) (s : State) : m.Lasts s s :=
  ⟨[], s.ip, s.frames.map Frame.returnTo, rfl, List.length_map .., .refl m s.ip⟩

/-- A call lasts as long as the machine does not come back beyond it. -/
theorem Lasts.turn {m : Module} {s t t' : State} (h : m.Lasts s t) (hpasses : m.Passes t t')
    (hlevel : s.frames.length ≤ t'.frames.length) : m.Lasts s t' := by
  obtain ⟨inner, ip, outer, hlist, hlength, hsame⟩ := h
  cases hpasses with
  | stays hip hframes =>
    cases inner with
    | nil =>
      cases hlist
      exact ⟨[], t'.ip, _, congrArg (List.cons _) hframes, hlength, hsame.trans hip⟩
    | cons i inner =>
      obtain ⟨rfl, hrest⟩ := List.cons.inj hlist
      exact ⟨t'.ip :: inner, ip, outer, congrArg (t'.ip :: ·) (hframes.trans hrest), hlength,
        hsame⟩
  | @enters x r frame hcode hop hr hip hframes hback =>
    rw [Lasts, hframes, List.map_cons]
    cases inner with
    | nil =>
      cases hlist
      exact ⟨[t'.ip], frame.returnTo, _, rfl, hlength, hsame.trans hback⟩
    | cons i inner =>
      obtain ⟨rfl, hrest⟩ := List.cons.inj hlist
      exact ⟨t'.ip :: frame.returnTo :: inner, ip, outer,
        congrArg (t'.ip :: frame.returnTo :: ·) hrest, hlength, hsame⟩
  | @leaves x frame hcode hop hframes hip =>
    rw [hframes, List.map_cons, ← hip] at hlist
    cases inner with
    | nil =>
      -- The call would be over, which the level excludes.
      obtain ⟨-, hrest⟩ := List.cons.inj hlist
      rw [← hrest, List.length_cons, List.length_map] at hlength
      omega
    | cons i inner =>
      obtain ⟨-, hrest⟩ := List.cons.inj hlist
      exact ⟨inner, ip, outer, hrest, hlength, hsame⟩

/-- A call lasts in every run that does not come back beyond it. -/
theorem Lasts.run {m : Module} {settings : Settings} {s t : State}
    (hb : s.Balanced m.generate m.note) {n : Nat} (h : m.generate.runFor settings n s = .next t)
    (hlevel : ∀ j u, j ≤ n → m.generate.runFor settings j s = .next u →
      s.frames.length ≤ u.frames.length) : m.Lasts s t := by
  induction n generalizing t with
  | zero =>
    cases h
    exact .refl m s
  | succ n ih =>
    obtain ⟨u, hu, hturn⟩ := Program.exists_last_turn h
    have hlasts := ih hu fun j v hj hv => hlevel j v (by omega) hv
    exact hlasts.turn (m.passes_turn (m.generate_noted.balanced_run hb hu) hturn)
      (hlevel (n + 1) t (Nat.le_refl _) h)

/-- When the machine works again on the call that was at hand, it is in the same functions. -/
theorem Lasts.sameRegions {m : Module} {s t : State} (h : m.Lasts s t)
    (hlevel : t.frames.length = s.frames.length) : m.SameRegions s.ip t.ip := by
  obtain ⟨inner, ip, outer, hlist, hlength, hsame⟩ := h
  have hlengths := congrArg List.length hlist
  simp only [List.length_cons, List.length_map, List.length_append] at hlengths
  have hnil : inner = [] := List.eq_nil_of_length_eq_zero (by omega)
  rw [hnil, List.nil_append] at hlist
  rwa [(List.cons.inj hlist).1]

/-- What holds of the functions in a state that a run of the program of a module has come to. -/
structure Confined (m : Module) (settings : Settings) (s : State) : Prop where
  /-- Outside all calls the machine is outside all functions. -/
  outside : s.frames = [] → ∀ r, m.FunctionRegion r → ¬s.ip ∈ r
  /-- The border of a function is passed by calls and returns only. -/
  passes : ∀ s', m.generate.turn settings s = .next s' → m.Passes s s'
  /-- As long as the call at hand lasts, the machine is in the same functions whenever it works on
  that call and not on one made from it. -/
  lasts : ∀ k t, m.generate.runFor settings k s = .next t →
    (∀ j u, j ≤ k → m.generate.runFor settings j s = .next u →
      s.frames.length ≤ u.frames.length) →
    t.frames.length = s.frames.length → m.SameRegions s.ip t.ip

/-- The control flow of the program of a module is contained.  Its operands are in range; it is what
a draft comes to that points nothing but jumps to targets; every function has a region that is
closed, and the table leads to the beginnings of regions; and all states of its runs are confined to
the functions that were called. -/
theorem generate_contained (m : Module) :
    m.generate.checkOffsets = .ok () ∧ m.generate.checkOperands = .ok () ∧
    m.drafted.program = m.generate ∧
    (∀ hit ∈ m.drafted.patched, hit = some .jump ∨ hit = some .jumpIfFalse) ∧
    (∀ x ∈ m.placed, x.stmt.isFn = true → ∃ finish, m.FunctionRegion ⟨x.offset + 1, finish⟩) ∧
    (∀ r, m.FunctionRegion r → m.generate.Closed r) ∧
    (∀ e ∈ m.generate.functions.entries, ∃ r, m.FunctionRegion r ∧ r.start = e.2.offset) ∧
    ∀ settings input globals n s,
      m.generate.runFor settings n (.initial input globals) = .next s → m.Confined settings s := by
  have hrange := m.generate_inRange
  refine ⟨Program.checkOffsets_eq_ok.mpr hrange.offset,
    Program.checkOperands_eq_ok.mpr hrange.operand, m.drafted_program, ?_, ?_,
    fun r hr => hr.closed, fun e he => functionRegion_of_entry (function?_of_mem_entries he), ?_⟩
  · intro hit hhit
    obtain ⟨op, rfl, hop⟩ := m.drafted_patched hit hhit
    cases op with
    | jump => exact .inl rfl
    | jumpIfFalse => exact .inr rfl
    | _ => cases hop
  · rintro ⟨s, inside, a⟩ hx hfn
    cases s with
    | fnStmt span name params body => exact ⟨_, functionRegion_of_placed hx⟩
    | _ => cases hfn
  · intro settings input globals n s hrun
    have hinitial := m.generate_noted.balanced_initial input globals
    have hb := m.generate_noted.balanced_run hinitial hrun
    refine ⟨fun hframes r hr hmem => ?_, fun s' hturn => m.passes_turn hb hturn,
      fun k t ht hlevel => (Lasts.run hb ht hlevel).sameRegions⟩
    -- The run began at the first instruction, which belongs to no function.
    have hsame := (Lasts.run hinitial hrun fun _ _ _ _ => Nat.zero_le _).sameRegions
      (by rw [hframes]; rfl)
    have hzero := ((hsame r hr).mpr hmem).1
    obtain ⟨a, hstart, -⟩ := hr.skip
    rw [hstart] at hzero
    exact Nat.not_succ_le_zero a hzero

/-- A function with a loop that is left and taken up again, a function inside of it, and a branch at
its end. -/
def bordered : Module where
  body := [
    .fnStmt .zero "f" ["n"] [
      .whileStmt .zero (.name .zero 0 "n") [
        .ifElseStmt .zero (.name .zero 1 "n") [.breakStmt .zero] [.continueStmt .zero]],
      .fnStmt .zero "g" [] [],
      .ifStmt .zero (.name .zero 2 "n") [.returnStmt .zero (some (.call .zero 3 "g" []))]],
    .letStmt .zero "a" (some (.call .zero 4 "f" [.literal .zero (.bool true)]))]
  nodeCount := 5

/-- The state of `bordered` in which the inner function is about to be called. -/
def borderedCall : State where
  ip := 13
  stack := []
  frames := [⟨18, ⟨[("n", .bool true)]⟩, 0⟩]
  globals := .empty
  printed := []
  screen := []
  input := []
  steps := 11

/-- The jumps of `bordered` that are pointed to their targets, the latest first; its functions; and
the state in which the inner one is about to be called. -/
theorem bordered_contained :
    bordered.drafted.patched = [some .jump, some .jumpIfFalse, some .jump, some .jump,
      some .jumpIfFalse, some .jump, some .jumpIfFalse] ∧
    (∀ hit ∈ bordered.drafted.patched, hit = some .jump ∨ hit = some .jumpIfFalse) ∧
    bordered.drafted.program = bordered.generate ∧
    bordered.FunctionRegion ⟨1, 16⟩ ∧ bordered.generate.Closed ⟨1, 16⟩ ∧
    bordered.FunctionRegion ⟨10, 11⟩ ∧ bordered.generate.Closed ⟨10, 11⟩ ∧
    bordered.generate.runFor ⟨false, none⟩ 11 (.initial [] .empty) = .next borderedCall ∧
    bordered.Confined ⟨false, none⟩ borderedCall := by
  obtain ⟨-, -, hprogram, hjumps, -, hclosed, -, hconfined⟩ := generate_contained bordered
  have hpatched : bordered.drafted.patched = [some .jump, some .jumpIfFalse, some .jump, some .jump,
      some .jumpIfFalse, some .jump, some .jumpIfFalse] := by decide +kernel
  have hskips : bordered.generate.code[0]? = some ⟨.jump, 16, 0⟩ ∧
      bordered.generate.code[9]? = some ⟨.jump, 11, 0⟩ := by decide +kernel
  have houter : bordered.FunctionRegion ⟨1, 16⟩ := ⟨_, .head _, rfl, rfl, hskips.1⟩
  have hplaced : ⟨.fnStmt .zero "g" [] [], true, 9⟩ ∈ bordered.placed :=
    .tail _ (.tail _ (.tail _ (.tail _ (.tail _ (.head _)))))
  have hinner : bordered.FunctionRegion ⟨10, 11⟩ := ⟨_, hplaced, rfl, rfl, hskips.2⟩
  have hrun : bordered.generate.runFor ⟨false, none⟩ 11 (.initial [] .empty) =
      .next borderedCall := by with_unfolding_all rfl
  exact ⟨hpatched, hjumps, hprogram, houter, hclosed _ houter, hinner, hclosed _ hinner, hrun,
    hconfined _ _ _ _ _ hrun⟩

end Module

end Scriptlet
