import Scriptlet.Proofs.Supplies

/-!
# Generated programs keep to their supplies

If a module is accepted and all its variables are declared with values, no instruction of its
program leads to one with a larger supply, and every variable that is used is supplied
(`Module.tracked_body`).
-/

namespace Scriptlet

section Tracked

variable {p : Program} {supply : Nat → Supply} {a : Nat}

/-! ## Statements -/

/-- The first instruction of a statement has the supply of its place. -/
theorem Stmt.supplies_eq_cons {s : Stmt} (h : s.initialised = true) (n : Supply) :
    ∃ l, s.supplies n = n :: l := by
  cases s with
  | letStmt span name value =>
    cases value with
    | none => cases h
    | some value => exact ⟨_, by rw [Stmt.supplies, List.replicate_succ]⟩
  | fnStmt span name params body => exact ⟨_, by rw [Stmt.supplies]⟩
  | returnStmt span value => exact ⟨_, by rw [Stmt.supplies, List.replicate_succ]⟩
  | breakStmt span => exact ⟨_, by rw [Stmt.supplies]⟩
  | continueStmt span => exact ⟨_, by rw [Stmt.supplies]⟩
  | ifStmt span cond body =>
    exact ⟨_, by rw [Stmt.supplies, List.replicate_succ, List.cons_append]⟩
  | ifElseStmt span cond body other =>
    exact ⟨_, by rw [Stmt.supplies, List.replicate_succ, List.cons_append]⟩
  | whileStmt span cond body =>
    exact ⟨_, by rw [Stmt.supplies, List.replicate_succ, List.cons_append]⟩
  | exprStmt span value => exact ⟨_, by rw [Stmt.supplies, List.replicate_succ]⟩

/-- Nothing more than the supply of a block is needed where it begins, if this is so behind it. -/
theorem Stmt.within_start {ss : List Stmt} {n : Supply}
    (hinit : ∀ s ∈ ss.head?, s.initialised = true) (h : Noted supply a (Stmt.suppliesIn n ss))
    (hend : endsWithReturn ss = false → (supply (a + Stmt.widths ss)).Within n) :
    (supply a).Within n := by
  cases ss with
  | nil => exact hend rfl
  | cons s rest =>
    obtain ⟨l, hl⟩ := Stmt.supplies_eq_cons (hinit s rfl) n
    rw [Stmt.suppliesIn, hl] at h
    rw [h.1]
    exact .refl n

/-- A function needs its parameters and what there is at its definition. -/
theorem Stmt.within_body {span : Span} {name : String} {params : List String} {body : List Stmt}
    {n : Supply} (hinit : ∀ s ∈ body.head?, s.initialised = true)
    (h : Noted supply a ((Stmt.fnStmt span name params body).supplies n)) :
    (supply (a + 1)).Within (n.entered params) := by
  rw [Stmt.supplies] at h
  have hbody := noted_append.mp h.2
  rw [Stmt.length_suppliesIn] at hbody
  refine Stmt.within_start hinit hbody.1 fun hends => ?_
  have hret := hbody.2
  rw [hends] at hret
  rw [noted_singleton.mp hret]
  exact .refl _

/-- What can be seen behind a statement is there. -/
theorem Program.Backs.after_stmt {env : Environment} {n : Supply}
    (h : p.Backs supply env.sight n) {around : Surroundings} {s : Stmt}
    (hf : (env.stmt around s).1.faults = []) (hinit : s.initialised = true)
    (hfn : ∀ span name params body, s = .fnStmt span name params body →
      ∃ entry, p.function? name = some entry ∧
        (supply entry.offset).Within (n.entered entry.params)) :
    p.Backs supply (env.stmt around s).2.sight (n.after s) := by
  rw [Environment.sight_stmt hf]
  cases s with
  | letStmt span name value =>
    cases value with
    | none => cases hinit
    | some value => exact h.add_variable name
  | fnStmt span name params body =>
    obtain ⟨entry, hentry, hwithin⟩ := hfn span name params body rfl
    exact h.add_function hentry hwithin
  | returnStmt span value => exact h
  | breakStmt span => exact h
  | continueStmt span => exact h
  | ifStmt span cond body => exact h
  | ifElseStmt span cond body other => exact h
  | whileStmt span cond body => exact h
  | exprStmt span value => exact h

theorem Placed.head?_placed {inside : Bool} {ss : List Stmt} {s : Stmt} (hs : s ∈ ss.head?) :
    ⟨s, inside, a⟩ ∈ Stmt.placed inside ss a := by
  cases ss with
  | nil => cases hs
  | cons t rest =>
    cases hs
    rw [Stmt.placed]
    exact List.mem_append_left _ (List.mem_cons_self ..)

/-- An expression and the instruction that takes its value. -/
theorem Expr.tracked_concat {same : Literal → Literal → Prop} {env : Environment} {n : Supply}
    (hb : p.Backs supply env.sight n) {e : Expr} (h : e.At p same a) (hf : (env.expr e).faults = [])
    (hn : Noted supply a (List.replicate (e.width + 1) n)) {x : Instruction}
    (hcode : p.code[a + e.width]? = some x)
    (hx : supply (a + e.width) = n → p.TracksAt supply (a + e.width) x) (hload : x.op ≠ .loadVar) :
    p.Tracked supply (env.expr e).uses (e.loads a) a (a + e.width + 1) := by
  rw [noted_replicate] at hn
  have he := Expr.tracked hb e a h hf fun i hai hia => hn i hai (by omega)
  exact he.concat hcode (hx (hn _ (by omega) (by omega))) hload

/-- The supplies of the offsets that a loop leads to are within a given one. -/
def LoopWithin (supply : Nat → Supply) (around : Option Program.LoopBounds) (n : Supply) : Prop :=
  ∀ l, around = some l → (supply l.start).Within n ∧ (supply l.exit).Within n

/-- Outside of loops there is nothing to lead to. -/
theorem LoopWithin.none (n : Supply) : LoopWithin supply .none n := by
  intro l hl
  cases hl

/-- A declaration in front only adds to what the offsets of the loop need. -/
theorem LoopWithin.after {around : Option Program.LoopBounds} {n : Supply}
    (h : LoopWithin supply around n) (s : Stmt) : LoopWithin supply around (n.after s) :=
  fun l hl => ⟨(h l hl).1.trans (n.within_after s), (h l hl).2.trans (n.within_after s)⟩

/-- A jump leads to its target only. -/
theorem Program.TracksAt.jump {target : Nat} {n : Supply} (ha : supply a = n)
    (htarget : (supply target).Within n) : p.TracksAt supply a ⟨.jump, target, 0⟩ := by
  refine .plain nofun nofun fun j hj => ?_
  rwa [List.mem_singleton.mp hj, ha]

/-- A conditional jump leads to its target and behind itself. -/
theorem Program.TracksAt.branch {target : Nat} {n : Supply} (ha : supply a = n)
    (hnext : (supply (a + 1)).Within n) (htarget : (supply target).Within n) :
    p.TracksAt supply a ⟨.jumpIfFalse, target, 0⟩ := by
  refine .plain nofun nofun fun j hj => ?_
  rw [ha]
  rcases List.mem_cons.mp hj with rfl | hj
  · exact hnext
  · rwa [List.mem_singleton.mp hj]

/-- Nothing follows a return. -/
theorem Program.TracksAt.ret : p.TracksAt supply a ⟨.ret, 0, 0⟩ := .plain nofun nofun nofun

/-- A jump to an end of the loop around it, which does nothing where there is no loop. -/
theorem Program.Tracked.leap {uses : List (Nat × Declaration)}
    {around : Option Program.LoopBounds} {target : Program.LoopBounds → Nat} {n : Supply}
    (hcode : p.code[a]? = some (around.elim ⟨.nop, 0, 0⟩ fun l => ⟨.jump, target l, 0⟩))
    (ha : supply a = n) (hnext : (supply (a + 1)).Within n)
    (htarget : ∀ l, around = some l → (supply (target l)).Within n) :
    p.Tracked supply uses [] a (a + 1) := by
  cases around with
  | none => exact .one hcode (.step nofun nofun rfl (by rw [ha]; exact hnext)) nofun
  | some l => exact .one hcode (.jump ha (htarget l rfl)) nofun

section Statements

variable {same : Literal → Literal → Prop} {placed : List Placed}

/-- The instructions of a statement keep to the supplies wherever it stands among given ones. -/
def Stmt.Keeps (p : Program) (supply : Nat → Supply) (same : Literal → Literal → Prop)
    (placed : List Placed) (around : Option Program.LoopBounds) (surroundings : Surroundings)
    (inside : Bool) (s : Stmt) : Prop :=
  ∀ (a : Nat) {n : Supply} {env : Environment},
    LoopWithin supply around n → s.At p same around a → Noted supply a (s.supplies n) →
    (endsWithReturn [s] = false → (supply (a + s.width)).Within (n.after s)) →
    (env.stmt surroundings s).1.faults = [] → p.Backs supply env.sight n →
    (∀ x ∈ ⟨s, inside, a⟩ :: s.inner inside a, x ∈ placed) →
    p.Tracked supply (env.stmt surroundings s).1.uses (s.loads a) a (a + s.width)

/-- The instructions of a block keep to the supplies wherever it stands among given statements. -/
def Stmt.KeepsAll (p : Program) (supply : Nat → Supply) (same : Literal → Literal → Prop)
    (placed : List Placed) (around : Option Program.LoopBounds) (surroundings : Surroundings)
    (inside : Bool) (ss : List Stmt) : Prop :=
  ∀ (a : Nat) {n : Supply} {env : Environment},
    LoopWithin supply around n → Stmt.AllAt p same around ss a →
    Noted supply a (Stmt.suppliesIn n ss) →
    (endsWithReturn ss = false → (supply (a + Stmt.widths ss)).Within n) →
    (env.block surroundings ss).1.faults = [] → p.Backs supply env.sight n →
    (∀ x ∈ Stmt.placed inside ss a, x ∈ placed) →
    p.Tracked supply (env.block surroundings ss).1.uses (Stmt.loadsIn ss a) a (a + Stmt.widths ss)

/-- A declaration stores the value that it computes. -/
theorem Stmt.keeps_let (around : Option Program.LoopBounds) (surroundings : Surroundings)
    (inside : Bool) (span : Span) (name : String) (value : Expr) :
    Stmt.Keeps p supply same placed around surroundings inside
      (.letStmt span name (some value)) := by
  intro a n env _ h hn hend hf hb _
  rw [Stmt.At] at h
  rw [Environment.stmt, Environment.nil_of_faults_append] at hf
  rw [Stmt.supplies] at hn
  have hend := hend rfl
  rw [Stmt.width, ← Nat.add_assoc] at hend ⊢
  rw [Environment.stmt, Stmt.loads, Findings.uses_append]
  obtain ⟨hvalue, k, hcode, hname⟩ := h
  have htracked := Expr.tracked_concat hb hvalue hf.1 hn hcode
    (fun hi => ⟨nofun, fun _ => ⟨name, hname, by rw [hi]; exact hend⟩, nofun⟩) nofun
  exact htracked.mono (List.subset_append_left ..)

/-- Nothing is needed behind a `return`. -/
theorem Stmt.keeps_return (around : Option Program.LoopBounds) (surroundings : Surroundings)
    (inside : Bool) (span : Span) (value : Option Expr) :
    Stmt.Keeps p supply same placed around surroundings inside (.returnStmt span value) := by
  intro a n env _ h hn _ hf hb _
  cases value with
  | none =>
    rw [Stmt.At] at h
    rw [Stmt.width, Expr.width?, Stmt.loads, Expr.loads?]
    exact .one h .ret nofun
  | some value =>
    rw [Stmt.At] at h
    rw [Environment.stmt, Environment.nil_of_faults_append] at hf
    rw [Stmt.supplies] at hn
    rw [Stmt.width, Expr.width?, ← Nat.add_assoc, Stmt.loads, Environment.stmt]
    exact (Expr.tracked_concat hb h.1 hf.2 hn h.2 (fun _ => .ret) nofun).mono
      (List.subset_append_right ..)

/-- A `break` leads behind the loop around it, or does nothing. -/
theorem Stmt.keeps_break (around : Option Program.LoopBounds) (surroundings : Surroundings)
    (inside : Bool) (span : Span) :
    Stmt.Keeps p supply same placed around surroundings inside (.breakStmt span) := by
  intro a n env hloop h hn hend _ _ _
  have hcode : p.code[a]? = some (around.elim ⟨.nop, 0, 0⟩ fun l => ⟨.jump, l.exit, 0⟩) := by
    cases around <;> rwa [Stmt.At] at h
  have hend := hend rfl
  rw [Stmt.supplies] at hn
  rw [Stmt.width] at hend ⊢
  rw [Stmt.loads]
  exact .leap hcode (noted_singleton.mp hn) hend fun l hl => (hloop l hl).2

/-- A `continue` leads to the start of the loop around it, or does nothing. -/
theorem Stmt.keeps_continue (around : Option Program.LoopBounds) (surroundings : Surroundings)
    (inside : Bool) (span : Span) :
    Stmt.Keeps p supply same placed around surroundings inside (.continueStmt span) := by
  intro a n env hloop h hn hend _ _ _
  have hcode : p.code[a]? = some (around.elim ⟨.nop, 0, 0⟩ fun l => ⟨.jump, l.start, 0⟩) := by
    cases around <;> rwa [Stmt.At] at h
  have hend := hend rfl
  rw [Stmt.supplies] at hn
  rw [Stmt.width] at hend ⊢
  rw [Stmt.loads]
  exact .leap hcode (noted_singleton.mp hn) hend fun l hl => (hloop l hl).1

/-- An expression that stands alone is computed and dropped. -/
theorem Stmt.keeps_expr (around : Option Program.LoopBounds) (surroundings : Surroundings)
    (inside : Bool) (span : Span) (value : Expr) :
    Stmt.Keeps p supply same placed around surroundings inside (.exprStmt span value) := by
  intro a n env _ h hn hend hf hb _
  rw [Stmt.At] at h
  rw [Environment.stmt] at hf
  rw [Stmt.supplies] at hn
  have hend := hend rfl
  rw [Stmt.width, ← Nat.add_assoc] at hend ⊢
  rw [Stmt.loads, Environment.stmt]
  exact Expr.tracked_concat hb h.1 hf hn h.2
    (fun hi => .step nofun nofun rfl (by rw [hi]; exact hend)) nofun

/-- A last statement keeps to the supplies of its block. -/
theorem Stmt.keepsAll_last {around : Option Program.LoopBounds} {surroundings : Surroundings}
    {inside : Bool} {s : Stmt}
    (hs : Stmt.Keeps p supply same placed around surroundings inside s) :
    Stmt.KeepsAll p supply same placed around surroundings inside [s] := by
  intro a n env hloop h hn hend hf hb hplaced
  rw [Stmt.AllAt] at h
  rw [Stmt.suppliesIn, Stmt.suppliesIn, List.append_nil] at hn
  rw [Stmt.widths, Stmt.widths, Nat.add_zero] at hend ⊢
  rw [Environment.block, Environment.nil_of_faults_append] at hf
  rw [Stmt.placed, Stmt.placed, List.append_nil] at hplaced
  rw [Environment.block, Stmt.loadsIn, Stmt.loadsIn, List.append_nil]
  exact (hs a hloop h.1 hn (fun hr => (hend hr).trans (n.within_after s)) hf.1 hb hplaced).mono
    (List.subset_append_left ..)

section Blocks

variable (hinit : ∀ x ∈ placed, x.stmt.initialised = true)

include hinit

/-- The code of a function is passed by, and its body finds its parameters and what there is at its
definition. -/
theorem Stmt.keeps_fn
    (htable : ∀ span name params body inside a,
      ⟨.fnStmt span name params body, inside, a⟩ ∈ placed → p.function? name = some ⟨a + 1, params⟩)
    (around : Option Program.LoopBounds) (surroundings : Surroundings) (inside : Bool) (span : Span)
    (name : String) (params : List String) {body : List Stmt}
    (hbody : Stmt.KeepsAll p supply same placed none ⟨0, true⟩ true body) :
    Stmt.Keeps p supply same placed around surroundings inside
      (.fnStmt span name params body) := by
  intro a n env _ h hn hend hf hb hs
  rw [Stmt.inner] at hs
  have hin : ∀ x ∈ Stmt.placed true body (a + 1), x ∈ placed := fun x hx =>
    hs x (List.mem_cons_of_mem _ hx)
  have hscoped := (Environment.faults_stmt surroundings _ env).mp hf
  rw [Stmt.WellScoped] at hscoped
  have hwithin := Stmt.within_body (fun s hs => hinit _ (hin _ (Placed.head?_placed hs))) hn
  have hentry := htable span name params body inside a (hs _ (List.mem_cons_self ..))
  have hdefined : p.Backs supply (env.sight.add name (.function params)) n :=
    hb.add_function hentry hwithin
  have hentered := hdefined.enter (hb.outside hscoped.1) params
  rw [← Environment.sight_entered hf] at hentered
  rw [Environment.stmt] at hf
  simp only [Environment.nil_of_faults_append] at hf
  rw [Stmt.At] at h
  obtain ⟨hjump, hat, hret⟩ := h
  rw [Stmt.supplies] at hn
  obtain ⟨hna, hn⟩ := hn
  rw [noted_append, Stmt.length_suppliesIn] at hn
  have hend := hend rfl
  rw [Stmt.width, ← Nat.add_assoc, ← Nat.add_assoc] at hend ⊢
  rw [Environment.stmt, Stmt.loads]
  -- The jump over the function leads to what follows, and the body is entered by calls only.
  have hover : p.Tracked supply [] [] a (a + 1) :=
    .one hjump (.jump hna hend) fun h => by cases h
  by_cases hends : endsWithReturn body = true
  · rw [if_pos hends, Nat.add_zero]
    have hall := hbody (a + 1) (.none _) hat hn.1 (fun h => by rw [hends] at h; cases h) hf.2
      hentered hin
    exact (hover.append hall).mono (List.subset_append_right ..)
  · rw [if_neg hends] at hn ⊢
    have hnret := noted_singleton.mp hn.2
    have hall := hbody (a + 1) (.none _) hat hn.1 (fun _ => by rw [hnret]; exact .refl _) hf.2
      hentered hin
    exact ((hover.append hall).concat (hret.resolve_left hends) .ret fun h => by cases h).mono
      (List.subset_append_right ..)

/-- A branch without an alternative needs nothing more behind it than before it. -/
theorem Stmt.keeps_if (around : Option Program.LoopBounds) (surroundings : Surroundings)
    (inside : Bool) (span : Span) (cond : Expr) {body : List Stmt}
    (hbody : Stmt.KeepsAll p supply same placed around surroundings inside body) :
    Stmt.Keeps p supply same placed around surroundings inside (.ifStmt span cond body) := by
  intro a n env hloop h hn hend hf hb hs
  rw [Stmt.inner] at hs
  have hin : ∀ x ∈ Stmt.placed inside body (a + cond.width + 1), x ∈ placed := fun x hx =>
    hs x (List.mem_cons_of_mem _ hx)
  rw [Stmt.At] at h
  obtain ⟨hcond, hjump, hat⟩ := h
  rw [Environment.stmt, Environment.nil_of_faults_append] at hf
  rw [Stmt.supplies, noted_append, List.length_replicate, ← Nat.add_assoc] at hn
  have hend : (supply (a + (Stmt.ifStmt span cond body).width)).Within n := hend rfl
  rw [Stmt.width, ← Nat.add_assoc, ← Nat.add_assoc] at hend ⊢
  rw [Environment.stmt, Stmt.loads]
  have hstart := Stmt.within_start (fun s hs => hinit _ (hin _ (Placed.head?_placed hs))) hn.2
    fun _ => hend
  have htest := Expr.tracked_concat hb hcond hf.1 hn.1 hjump (fun hi => .branch hi hstart hend)
    nofun
  exact htest.append (hbody _ hloop hat hn.2 (fun _ => hend) hf.2 hb.fresh hin)

/-- Both sides of a branch start from what there is before it. -/
theorem Stmt.keeps_ifElse (around : Option Program.LoopBounds) (surroundings : Surroundings)
    (inside : Bool) (span : Span) (cond : Expr) {body other : List Stmt}
    (hbody : Stmt.KeepsAll p supply same placed around surroundings inside body)
    (hother : Stmt.KeepsAll p supply same placed around surroundings inside other) :
    Stmt.Keeps p supply same placed around surroundings inside
      (.ifElseStmt span cond body other) := by
  intro a n env hloop h hn hend hf hb hs
  rw [Stmt.inner] at hs
  have hthen : ∀ x ∈ Stmt.placed inside body (a + cond.width + 1), x ∈ placed := fun x hx =>
    hs x (List.mem_cons_of_mem _ (List.mem_append_left _ hx))
  have helse : ∀ x ∈ Stmt.placed inside other (a + cond.width + 1 + Stmt.widths body + 1),
      x ∈ placed := fun x hx => hs x (List.mem_cons_of_mem _ (List.mem_append_right _ hx))
  rw [Stmt.At] at h
  obtain ⟨hcond, hjump, hat, hover, hat'⟩ := h
  rw [Environment.stmt, Environment.nil_of_faults_append, Environment.nil_of_faults_append] at hf
  rw [Stmt.supplies, noted_append, List.length_replicate, ← Nat.add_assoc, noted_append,
    Stmt.length_suppliesIn] at hn
  obtain ⟨hncond, hnbody, hnover, hnother⟩ := hn
  have hend : (supply (a + (Stmt.ifElseStmt span cond body other).width)).Within n := hend rfl
  simp only [Stmt.width, ← Nat.add_assoc] at hend ⊢
  rw [Environment.stmt, Stmt.loads]
  -- The jump between the blocks has the supply of the statement.
  have hbetween : (supply (a + cond.width + 1 + Stmt.widths body)).Within n := by
    rw [hnover]
    exact .refl n
  have hstart := Stmt.within_start (fun s hs => hinit _ (hthen _ (Placed.head?_placed hs))) hnbody
    fun _ => hbetween
  have hstart' := Stmt.within_start (fun s hs => hinit _ (helse _ (Placed.head?_placed hs)))
    hnother fun _ => hend
  have htest := Expr.tracked_concat hb hcond hf.1.1 hncond hjump
    (fun hi => .branch hi hstart hstart') nofun
  have hfirst := hbody _ hloop hat hnbody (fun _ => hbetween) hf.1.2 hb.fresh hthen
  exact ((htest.append hfirst).concat hover (.jump hnover hend) nofun).append
    (hother _ hloop hat' hnother (fun _ => hend) hf.2 hb.fresh helse)

/-- A loop comes back to its condition with what there was before it. -/
theorem Stmt.keeps_while (around : Option Program.LoopBounds) (surroundings : Surroundings)
    (inside : Bool) (span : Span) (cond : Expr) {body : List Stmt}
    (hbody : ∀ l, Stmt.KeepsAll p supply same placed (some l)
      { surroundings with loops := surroundings.loops + 1 } inside body) :
    Stmt.Keeps p supply same placed around surroundings inside (.whileStmt span cond body) := by
  intro a n env _ h hn hend hf hb hs
  rw [Stmt.inner] at hs
  have hin : ∀ x ∈ Stmt.placed inside body (a + cond.width + 1), x ∈ placed := fun x hx =>
    hs x (List.mem_cons_of_mem _ hx)
  rw [Stmt.At] at h
  obtain ⟨hcond, hjump, hat, hback⟩ := h
  rw [Environment.stmt, Environment.nil_of_faults_append] at hf
  rw [Stmt.supplies, noted_append, List.length_replicate, ← Nat.add_assoc, noted_append,
    Stmt.length_suppliesIn, noted_singleton] at hn
  obtain ⟨hncond, hnbody, hnback⟩ := hn
  have hend : (supply (a + (Stmt.whileStmt span cond body).width)).Within n := hend rfl
  simp only [Stmt.width, ← Nat.add_assoc] at hend ⊢
  rw [Environment.stmt, Stmt.loads]
  have hfirst : (supply a).Within n := by
    rw [noted_replicate.mp hncond a (Nat.le_refl a) (by omega)]
    exact .refl n
  have hbehind : (supply (a + cond.width + 1 + Stmt.widths body)).Within n := by
    rw [hnback]
    exact .refl n
  have hstart := Stmt.within_start (fun s hs => hinit _ (hin _ (Placed.head?_placed hs))) hnbody
    fun _ => hbehind
  have htest := Expr.tracked_concat hb hcond hf.1 hncond hjump (fun hi => .branch hi hstart hend)
    nofun
  -- In the body, `continue` leads to the condition and `break` behind the loop.
  have hloop : LoopWithin supply (some ⟨a, a + cond.width + 1 + Stmt.widths body + 1⟩) n := by
    rintro l ⟨⟩
    exact ⟨hfirst, hend⟩
  have hround := hbody _ _ hloop hat hnbody (fun _ => hbehind) hf.2 hb.fresh hin
  exact (htest.append hround).concat hback (.jump hnback hfirst) nofun

/-- What follows a statement finds what the statement has added. -/
theorem Stmt.keepsAll_cons
    (htable : ∀ span name params body inside a,
      ⟨.fnStmt span name params body, inside, a⟩ ∈ placed → p.function? name = some ⟨a + 1, params⟩)
    {around : Option Program.LoopBounds} {surroundings : Surroundings} {inside : Bool} {s t : Stmt}
    {rest : List Stmt} (hs : Stmt.Keeps p supply same placed around surroundings inside s)
    (hrest : Stmt.KeepsAll p supply same placed around surroundings inside (t :: rest)) :
    Stmt.KeepsAll p supply same placed around surroundings inside (s :: t :: rest) := by
  intro a n env hloop h hn hend hf hb hplaced
  rw [Stmt.AllAt] at h
  rw [Stmt.suppliesIn, noted_append, Stmt.length_supplies] at hn
  rw [endsWithReturn_cons_cons] at hend
  rw [Stmt.widths, ← Nat.add_assoc] at hend ⊢
  rw [Environment.block, Environment.nil_of_faults_append] at hf
  rw [Stmt.placed] at hplaced
  rw [Environment.block, Stmt.loadsIn]
  have hin : ∀ x ∈ Stmt.placed inside (t :: rest) (a + s.width), x ∈ placed := fun x hx =>
    hplaced x (List.mem_append_right _ hx)
  have hown : ⟨s, inside, a⟩ ∈ placed :=
    hplaced _ (List.mem_append_left _ (List.mem_cons_self ..))
  have hend' : endsWithReturn (t :: rest) = false →
      (supply (a + s.width + Stmt.widths (t :: rest))).Within (n.after s) := fun hr =>
    (hend hr).trans (n.within_after s)
  have hbetween := Stmt.within_start (fun s hs => hinit _ (hin _ (Placed.head?_placed hs))) hn.2
    hend'
  have hfirst := hs a hloop h.1 hn.1 (fun _ => hbetween) hf.1 hb fun x hx =>
    hplaced x (List.mem_append_left _ hx)
  have hbacks : p.Backs supply (env.stmt surroundings s).2.sight (n.after s) := by
    refine hb.after_stmt hf.1 (hinit _ hown) ?_
    rintro span name params body rfl
    refine ⟨_, htable span name params body inside a hown,
      Stmt.within_body (fun s' hs' => ?_) hn.1⟩
    refine hinit ⟨s', true, a + 1⟩
      (hplaced _ (List.mem_append_left _ (List.mem_cons_of_mem _ ?_)))
    rw [Stmt.inner]
    exact Placed.head?_placed hs'
  exact hfirst.append (hrest _ (hloop.after s) h.2 hn.2 hend' hf.2 hbacks hin)

end Blocks

variable (hinit : ∀ x ∈ placed, x.stmt.initialised = true)
  (htable : ∀ span name params body inside a, ⟨.fnStmt span name params body, inside, a⟩ ∈ placed →
    p.function? name = some ⟨a + 1, params⟩)

include hinit htable

mutual

/-- The instructions of a statement keep to the supplies. -/
theorem Stmt.tracked (around : Option Program.LoopBounds) (surroundings : Surroundings)
    (inside : Bool) :
    ∀ s : Stmt, Stmt.Keeps p supply same placed around surroundings inside s
  | .letStmt _ _ none => by
    intro a n env _ _ _ _ _ _ hs
    cases hinit _ (hs _ (List.mem_cons_self ..))
  | .letStmt span name (some value) =>
    Stmt.keeps_let around surroundings inside span name value
  | .fnStmt span name params body =>
    Stmt.keeps_fn hinit htable around surroundings inside span name params
      (Stmt.tracked_all none ⟨0, true⟩ true body)
  | .returnStmt span value => Stmt.keeps_return around surroundings inside span value
  | .breakStmt span => Stmt.keeps_break around surroundings inside span
  | .continueStmt span => Stmt.keeps_continue around surroundings inside span
  | .ifStmt span cond body =>
    Stmt.keeps_if hinit around surroundings inside span cond
      (Stmt.tracked_all around surroundings inside body)
  | .ifElseStmt span cond body other =>
    Stmt.keeps_ifElse hinit around surroundings inside span cond
      (Stmt.tracked_all around surroundings inside body)
      (Stmt.tracked_all around surroundings inside other)
  | .whileStmt span cond body =>
    Stmt.keeps_while hinit around surroundings inside span cond fun l =>
      Stmt.tracked_all (some l) { surroundings with loops := surroundings.loops + 1 } inside body
  | .exprStmt span value => Stmt.keeps_expr around surroundings inside span value

/-- The instructions of some statements keep to the supplies. -/
theorem Stmt.tracked_all (around : Option Program.LoopBounds) (surroundings : Surroundings)
    (inside : Bool) :
    ∀ ss : List Stmt, Stmt.KeepsAll p supply same placed around surroundings inside ss
  | [] => by
    intro a n env _ _ _ _ _ _ _
    rw [Stmt.widths, Stmt.loadsIn]
    exact .nil a
  | [s] => Stmt.keepsAll_last (Stmt.tracked around surroundings inside s)
  | s :: t :: rest =>
    Stmt.keepsAll_cons hinit htable (Stmt.tracked around surroundings inside s)
      (Stmt.tracked_all around surroundings inside (t :: rest))

end

end Statements

end Tracked

/-! ## Generated programs -/

/-- The function that a statement defines, and the offset of its code. -/
def Placed.definition? : Placed → Option (Definition × Nat)
  | ⟨.fnStmt _ name params body, _, a⟩ => some (⟨name, params, body⟩, a + 1)
  | _ => none

mutual

theorem Stmt.map_definition? (inside : Bool) : ∀ (s : Stmt) (a : Nat),
    ((⟨s, inside, a⟩ :: s.inner inside a).filterMap Placed.definition?).map Prod.fst =
      s.definitions
  | .fnStmt _ name params body, a => by
    rw [Stmt.inner, Stmt.definitions, ← Stmt.map_definition?_all true body (a + 1)]
    rfl
  | .ifStmt _ cond body, a => by
    rw [Stmt.inner, Stmt.definitions, ← Stmt.map_definition?_all inside body (a + cond.width + 1)]
    rfl
  | .ifElseStmt _ cond body other, a => by
    rw [Stmt.inner, Stmt.definitions, ← Stmt.map_definition?_all inside body (a + cond.width + 1),
      ← Stmt.map_definition?_all inside other (a + cond.width + 1 + Stmt.widths body + 1),
      ← List.map_append, ← List.filterMap_append]
    rfl
  | .whileStmt _ cond body, a => by
    rw [Stmt.inner, Stmt.definitions, ← Stmt.map_definition?_all inside body (a + cond.width + 1)]
    rfl
  | .letStmt _ _ _, a => by rw [Stmt.inner, Stmt.definitions]; rfl
  | .returnStmt _ _, a => by rw [Stmt.inner, Stmt.definitions]; rfl
  | .breakStmt _, a => by rw [Stmt.inner, Stmt.definitions]; rfl
  | .continueStmt _, a => by rw [Stmt.inner, Stmt.definitions]; rfl
  | .exprStmt _ _, a => by rw [Stmt.inner, Stmt.definitions]; rfl

/-- The functions among placed statements are those that the statements define. -/
theorem Stmt.map_definition?_all (inside : Bool) : ∀ (ss : List Stmt) (a : Nat),
    ((Stmt.placed inside ss a).filterMap Placed.definition?).map Prod.fst = Stmt.definitionsIn ss
  | [], a => by rw [Stmt.placed, Stmt.definitionsIn]; rfl
  | s :: rest, a => by
    rw [Stmt.placed, Stmt.definitionsIn, List.filterMap_append, List.map_append,
      Stmt.map_definition? inside s, Stmt.map_definition?_all inside rest]

end

/-- If functions have different names, the table of the program leads to each of them. -/
theorem Module.function?_generate {m : Module}
    (hdistinct : ((Stmt.definitionsIn m.body).map Definition.name).Nodup) {span : Span}
    {name : String} {params : List String} {body : List Stmt} {inside : Bool} {a : Nat}
    (h : ⟨.fnStmt span name params body, inside, a⟩ ∈ m.placed) :
    m.generate.function? name = some ⟨a + 1, params⟩ := by
  have hbodies : Stmt.BodiesRight (fun d b => (d, b) ∈ m.placed.filterMap Placed.definition?)
      m.placed := fun _ _ _ _ _ _ hx => List.mem_filterMap.mpr ⟨_, hx, rfl⟩
  have hmem := hbodies _ _ _ _ _ _ h
  have hdefs := Stmt.map_definition?_all false m.body 0
  have hd : (⟨name, params, body⟩ : Definition) ∈ Stmt.definitionsIn m.body := by
    rw [← hdefs]
    exact List.mem_map_of_mem hmem
  have hfound := m.generate_table hbodies name
  rw [Definition.last?_of_mem hdistinct hd] at hfound
  obtain ⟨b, hfind, hb⟩ := hfound
  rw [← hdefs, List.map_map] at hdistinct
  have heq := List.inj_on_of_nodup_map hdistinct hb hmem rfl
  cases heq
  exact hfind

theorem Module.noted_supply (m : Module) :
    Noted m.supply 0 (Stmt.suppliesIn .empty m.body) := by
  refine noted_of_getElem? fun i hi => ?_
  rw [Nat.zero_add, supply, List.getD_eq_getElem?_getD, List.getElem?_eq_getElem hi]
  rfl

theorem Module.supply_widths (m : Module) : m.supply (0 + Stmt.widths m.body) = .empty := by
  have hlen := Stmt.length_suppliesIn .empty m.body
  rw [Nat.zero_add, supply, List.getD_eq_getElem?_getD, List.getElem?_eq_none (Nat.le_of_eq hlen)]
  rfl

/-- The program of a module that is accepted, and in which all variables are declared with values,
keeps to the supplies. -/
theorem Module.tracked_body {m : Module} {found : Resolution} (h : m.resolve = .ok found)
    (hinit : m.Initialised) :
    m.generate.Tracked m.supply m.check.uses m.loads 0 m.generate.code.size := by
  have hat : Stmt.AllAt m.generate (fun _ _ => True) none m.body 0 :=
    m.generate_at fun v _ => ⟨trivial, fun _ _ _ => trivial⟩
  have hbacks : m.generate.Backs m.supply Environment.initial.sight .empty := by
    rw [Environment.sight_initial]
    exact .initial
  have hdistinct := (Module.resolve_ok h).1
  have htracked := Stmt.tracked_all hinit
    (fun _ _ _ _ _ _ hx => Module.function?_generate hdistinct hx) none ⟨0, false⟩ false m.body 0
    (.none _) hat m.noted_supply (fun _ => by rw [m.supply_widths]; exact .refl _)
    (Module.faults_of_resolve h) hbacks fun x hx => hx
  rwa [Nat.zero_add, ← m.size_generate] at htracked

end Scriptlet
