import Scriptlet.Proofs.Notes

/-!
# Generated instructions fit their notes

An instruction fits the notes of a program if its operands are there, it does not take more values
than the call at hand has on the stack, and the notes of all instructions that may come next say
what it leaves.  Every instruction of a generated program fits (`Module.generate_noted`).
-/

namespace Scriptlet

/-! ## What an instruction takes and leaves -/

namespace Instruction

/-- How many values an instruction takes off the stack; what `ret` drops is counted apart. -/
def takes (x : Instruction) : Nat :=
  match x.op with
  | .loadConst | .loadVar | .jump | .ret | .nop => 0
  | .storeVar | .jumpIfFalse | .pop | .not => 1
  | .add | .sub | .mul | .div | .eq | .neq | .lt | .lte | .gt | .gte | .and | .or => 2
  | .call => x.arg2

/-- How many values an instruction puts on the stack; that of a call is there when it returns. -/
def gives (x : Instruction) : Nat :=
  match x.op with
  | .storeVar | .jump | .jumpIfFalse | .ret | .pop | .nop => 0
  | .loadConst | .loadVar | .call | .not | .add | .sub | .mul | .div | .eq | .neq | .lt | .lte
  | .gt | .gte | .and | .or => 1

/-- Where the call at hand may go on behind an instruction at an offset. -/
def successors (x : Instruction) (i : Nat) : List Nat :=
  match x.op with
  | .jump => [x.arg1]
  | .jumpIfFalse => [i + 1, x.arg1]
  | .ret => []
  | _ => [i + 1]

end Instruction

mutual

/-- The calls in an expression: the name and the number of arguments of each. -/
def Expr.calls : Expr → List (String × Nat)
  | .literal _ _ | .name _ _ _ => []
  | .binary _ _ left right => left.calls ++ right.calls
  | .not _ operand => operand.calls
  | .call _ _ f args => Expr.callsIn args ++ [(f, args.length)]

/-- The calls in some expressions. -/
def Expr.callsIn : List Expr → List (String × Nat)
  | [] => []
  | e :: rest => e.calls ++ Expr.callsIn rest

end

/-- The calls in the expression of a statement, not those in the statements inside it. -/
def Stmt.calls : Stmt → List (String × Nat)
  | .letStmt _ _ (some e) | .returnStmt _ (some e) | .exprStmt _ e => e.calls
  | .ifStmt _ e _ | .ifElseStmt _ e _ _ | .whileStmt _ e _ => e.calls
  | .letStmt _ _ none | .returnStmt _ none | .fnStmt _ _ _ _ | .breakStmt _ | .continueStmt _ => []

/-! ## Fitting instructions -/

/-- The note of an offset says what an instruction leaves: in the same function, either one step
further through the same code or, without values on the stack, at a new beginning. -/
structure Instruction.Leads (x : Instruction) (note : Nat → Note) (i j : Nat) : Prop where
  inside : (note j).inside = (note i).inside
  depth : (note j).depth + x.takes = (note i).depth + x.gives
  home : j = i + 1 ∧ (note j).home = (note i).home ∨ (note j).home = j

/-- On the way through the same code. -/
theorem Instruction.Leads.on {x : Instruction} {note : Nat → Note} {i d d' home : Nat}
    {inside : Bool} (hn : note i = ⟨d, inside, home⟩) (hn' : note (i + 1) = ⟨d', inside, home⟩)
    (h : d' + x.takes = d + x.gives) : x.Leads note i (i + 1) := by
  refine ⟨?_, ?_, .inl ⟨rfl, ?_⟩⟩ <;> rw [hn, hn']
  exact h

/-- At a new beginning. -/
theorem Instruction.Leads.anew {x : Instruction} {note : Nat → Note} {i j d home : Nat}
    {inside : Bool} (hn : note i = ⟨d, inside, home⟩) (hn' : note j = .rest inside j)
    (h : x.takes = d + x.gives) : x.Leads note i j := by
  refine ⟨?_, ?_, .inr ?_⟩ <;> rw [hn']
  · rw [hn]
    rfl
  · rw [hn, ← h]
    exact Nat.zero_add _
  · rfl

/-- An instruction at an offset fits the notes of a program made from some statements. -/
structure Program.FitsAt (p : Program) (note : Nat → Note) (placed : List Placed) (i : Nat)
    (x : Instruction) : Prop where
  takes : x.takes ≤ (note i).depth
  next : ∀ j ∈ x.successors i, j ≤ p.code.size ∧ x.Leads note i j
  constant : x.op = .loadConst → ∃ v, p.constants[x.arg1]? = some v
  loaded : x.op = .loadVar → ∃ name, p.variableNames[x.arg1]? = some name
  stored : x.op = .storeVar → ∃ name, p.variableNames[x.arg1]? = some name
  /-- A call is written in some statement, and goes on on its way when it comes back. -/
  call : x.op = .call → (note (i + 1)).home = (note i).home ∧
    ∃ name, p.constants[x.arg1]? = some (.str name) ∧ ∃ s ∈ placed, (name, x.arg2) ∈ s.stmt.calls
  /-- A return has nothing on the stack, or only the value of its own expression. -/
  ret : x.op = .ret → (note i).depth = 0 ∨
    (note i).depth = 1 ∧ ∃ span e, i = (note i).home + e.width ∧
      ⟨.returnStmt span (some e), (note i).inside, (note i).home⟩ ∈ placed
  /-- A return outside of all functions is written there. -/
  outside : x.op = .ret → (note i).inside = false →
    ∃ span value a, ⟨.returnStmt span value, false, a⟩ ∈ placed

/-- There is an instruction at an offset, and it fits. -/
def Program.Fits (p : Program) (note : Nat → Note) (placed : List Placed) (i : Nat) : Prop :=
  ∃ x, p.code[i]? = some x ∧ p.FitsAt note placed i x

/-- All instructions between two offsets fit, and between the statements of a list there are no
values on the stack. -/
structure Program.Covers (p : Program) (note : Nat → Note) (placed : List Placed) (a b : Nat)
    (xs : List Placed) : Prop where
  fits : ∀ i, a ≤ i → i < b → p.Fits note placed i
  rests : ∀ x ∈ xs, Noted note x.offset (x.stmt.notes x.inside x.offset) ∧
    note x.offset = .rest x.inside x.offset ∧ (note (x.offset + x.stmt.width)).depth = 0

section Fits

variable {p : Program} {note : Nat → Note} {placed : List Placed}

namespace Program.Covers

theorem nil (a : Nat) : p.Covers note placed a a [] :=
  ⟨fun i h h' => absurd h' (Nat.not_lt.mpr h), fun x hx => by cases hx⟩

/-- Code behind other code fits if both parts do. -/
theorem append {a b c : Nat} {xs ys : List Placed} (h : p.Covers note placed a b xs)
    (h' : p.Covers note placed b c ys) : p.Covers note placed a c (xs ++ ys) := by
  refine ⟨fun i hai hic => ?_, fun x hx => ?_⟩
  · rcases Nat.lt_or_ge i b with hib | hib
    · exact h.fits i hai hib
    · exact h'.fits i hib hic
  · rcases List.mem_append.mp hx with hx | hx
    · exact h.rests x hx
    · exact h'.rests x hx

/-- A single instruction that fits. -/
theorem one {a : Nat} (h : p.Fits note placed a) : p.Covers note placed a (a + 1) [] := by
  refine ⟨fun i hai hia => ?_, fun x hx => by cases hx⟩
  obtain rfl : i = a := by omega
  exact h

/-- One more instruction behind. -/
theorem concat {a b : Nat} {xs : List Placed} (h : p.Covers note placed a b xs)
    (h' : p.Fits note placed b) : p.Covers note placed a (b + 1) xs := by
  have := h.append (one h')
  rwa [List.append_nil] at this

/-- One more statement that begins and ends without values on the stack. -/
theorem cons {a b : Nat} {xs : List Placed} (h : p.Covers note placed a b xs) {x : Placed}
    (hx : Noted note x.offset (x.stmt.notes x.inside x.offset))
    (hstart : note x.offset = .rest x.inside x.offset)
    (hend : (note (x.offset + x.stmt.width)).depth = 0) : p.Covers note placed a b (x :: xs) := by
  refine ⟨h.fits, fun y hy => ?_⟩
  rcases List.mem_cons.mp hy with rfl | hy
  · exact ⟨hx, hstart, hend⟩
  · exact h.rests y hy

end Program.Covers

/-! ## Expressions -/

namespace Program

/-- An instruction that goes on behind itself, and is neither a call nor a return. -/
theorem Fits.step {i : Nat} {x : Instruction} (hcode : p.code[i]? = some x)
    (hnext : x.successors i = [i + 1]) (hcall : x.op ≠ .call) (hret : x.op ≠ .ret)
    (hconst : x.op = .loadConst → ∃ v, p.constants[x.arg1]? = some v)
    (hload : x.op = .loadVar → ∃ name, p.variableNames[x.arg1]? = some name)
    (hstore : x.op = .storeVar → ∃ name, p.variableNames[x.arg1]? = some name)
    (htakes : x.takes ≤ (note i).depth) (hleads : x.Leads note i (i + 1)) :
    p.Fits note placed i := by
  refine ⟨x, hcode, htakes, ?_, hconst, hload, hstore, ?_, ?_, ?_⟩
  · rw [hnext]
    intro j hj
    rw [List.mem_singleton.mp hj]
    exact ⟨lt_size_of_code hcode, hleads⟩
  · exact fun h => absurd h hcall
  · exact fun h => absurd h hret
  · exact fun h => absurd h hret

variable {d i home : Nat} {inside : Bool}

/-- Loading a literal leaves one more value. -/
theorem fits_loadConst {same : Literal → Literal → Prop} {value : Literal}
    (h : p.LoadsAt same value i) (hn : note i = ⟨d, inside, home⟩)
    (hn' : note (i + 1) = ⟨d + 1, inside, home⟩) : p.Fits note placed i := by
  obtain ⟨k, found, hcode, hconst, -⟩ := h
  exact .step hcode rfl nofun nofun (fun _ => ⟨found, hconst⟩) nofun nofun (Nat.zero_le _)
    (.on hn hn' rfl)

/-- Loading a variable leaves one more value. -/
theorem fits_loadVar {name : String} (h : p.VariableAt .loadVar name i)
    (hn : note i = ⟨d, inside, home⟩) (hn' : note (i + 1) = ⟨d + 1, inside, home⟩) :
    p.Fits note placed i := by
  obtain ⟨k, hcode, hname⟩ := h
  exact .step hcode rfl nofun nofun nofun (fun _ => ⟨name, hname⟩) nofun (Nat.zero_le _)
    (.on hn hn' rfl)

/-- An operation leaves one value in the place of two. -/
theorem fits_binary {op : BinaryOp} (h : p.PlainAt op.opcode i)
    (hn : note i = ⟨d + 2, inside, home⟩) (hn' : note (i + 1) = ⟨d + 1, inside, home⟩) :
    p.Fits note placed i := by
  have htakes : (⟨op.opcode, 0, 0⟩ : Instruction).takes = 2 := by cases op <;> rfl
  have hgives : (⟨op.opcode, 0, 0⟩ : Instruction).gives = 1 := by cases op <;> rfl
  have hop : op.opcode ∉ [.call, .ret, .loadConst, .loadVar, .storeVar] := by cases op <;> decide
  simp only [List.mem_cons, List.not_mem_nil, or_false, not_or] at hop
  obtain ⟨hcall, hret, hconst, hload, hstore⟩ := hop
  refine .step h ?_ hcall hret (absurd · hconst) (absurd · hload) (absurd · hstore) ?_
    (.on hn hn' (by rw [htakes, hgives]))
  · cases op <;> rfl
  · rw [hn, htakes]
    exact Nat.le_add_left ..

/-- A negation leaves one value in the place of one. -/
theorem fits_not (h : p.PlainAt .not i) (hn : note i = ⟨d + 1, inside, home⟩)
    (hn' : note (i + 1) = ⟨d + 1, inside, home⟩) : p.Fits note placed i := by
  refine .step h rfl nofun nofun nofun nofun nofun ?_ (.on hn hn' rfl)
  rw [hn]
  exact Nat.le_add_left ..

/-- A call leaves one value in the place of its arguments, and it is one of the calls of the
module. -/
theorem fits_call {name : String} {args : Nat} (h : p.CallAt name args i)
    (hn : note i = ⟨d + args, inside, home⟩) (hn' : note (i + 1) = ⟨d + 1, inside, home⟩)
    (hs : ∃ s ∈ placed, (name, args) ∈ s.stmt.calls) : p.Fits note placed i := by
  obtain ⟨k, hcode, hconst⟩ := h
  refine ⟨_, hcode, ?_, ?_, nofun, nofun, nofun, ?_, nofun, nofun⟩
  · rw [hn]
    exact Nat.le_add_left ..
  · intro j hj
    rw [List.mem_singleton.mp hj]
    exact ⟨lt_size_of_code hcode, .on hn hn' (Nat.add_right_comm d 1 args)⟩
  · intro _
    rw [hn, hn']
    exact ⟨rfl, name, hconst, hs⟩

end Program

/-- The note of the first instruction of an expression. -/
theorem noted_depths_start {inside : Bool} {home : Nat} {e : Expr} {d a : Nat}
    (h : Noted note a ((e.depths d).map (⟨·, inside, home⟩))) : note a = ⟨d, inside, home⟩ := by
  obtain ⟨l, hl⟩ := Expr.depths_eq_cons d e
  rw [hl, List.map_cons] at h
  exact h.1

/-- The note where some expressions begin, which is the note behind them if there are none. -/
theorem noted_depthsIn_start {inside : Bool} {home : Nat} {es : List Expr} {d a : Nat}
    (h : Noted note a ((Expr.depthsIn d es).map (⟨·, inside, home⟩)))
    (hbehind : note (a + Expr.widths es) = ⟨d + es.length, inside, home⟩) :
    note a = ⟨d, inside, home⟩ := by
  cases es with
  | nil => rwa [Expr.widths] at hbehind
  | cons e rest =>
    rw [Expr.depthsIn, List.map_append, noted_append] at h
    exact noted_depths_start h.1

mutual

/-- The instructions of an expression fit. -/
theorem Expr.covers {same : Literal → Literal → Prop} {inside : Bool} {home : Nat} :
    ∀ (e : Expr) (d a : Nat), e.At p same a →
      Noted note a ((e.depths d).map (⟨·, inside, home⟩)) →
      note (a + e.width) = ⟨d + 1, inside, home⟩ →
      (∀ c ∈ e.calls, ∃ s ∈ placed, c ∈ s.stmt.calls) →
      p.Covers note placed a (a + e.width) []
  | .literal _ _, d, a, h, hn, hbehind, _ => by
    rw [Expr.At] at h
    rw [Expr.width] at hbehind ⊢
    exact .one (Program.fits_loadConst h (noted_depths_start hn) hbehind)
  | .name _ _ _, d, a, h, hn, hbehind, _ => by
    rw [Expr.At] at h
    rw [Expr.width] at hbehind ⊢
    exact .one (Program.fits_loadVar h (noted_depths_start hn) hbehind)
  | .binary _ _ left right, d, a, h, hn, hbehind, hcalls => by
    rw [Expr.At] at h
    obtain ⟨hl, hr, hop⟩ := h
    rw [Expr.depths, List.map_append, noted_append, List.length_map, Expr.length_depths,
      List.map_append, noted_append, List.length_map, Expr.length_depths] at hn
    obtain ⟨hnl, hnr, hnop⟩ := hn
    rw [Expr.calls] at hcalls
    rw [Expr.width, ← Nat.add_assoc, ← Nat.add_assoc] at hbehind ⊢
    have hnop := noted_singleton.mp hnop
    -- The right operand is computed with one more value on the stack.
    have hleft := Expr.covers left d a hl hnl (noted_depths_start hnr)
      fun c hc => hcalls c (List.mem_append_left _ hc)
    have hright := Expr.covers right (d + 1) _ hr hnr hnop
      fun c hc => hcalls c (List.mem_append_right _ hc)
    exact (hleft.append hright).concat (Program.fits_binary hop hnop hbehind)
  | .not _ operand, d, a, h, hn, hbehind, hcalls => by
    rw [Expr.At] at h
    rw [Expr.depths, List.map_append, noted_append, List.length_map, Expr.length_depths] at hn
    rw [Expr.calls] at hcalls
    rw [Expr.width, ← Nat.add_assoc] at hbehind ⊢
    have hnop := noted_singleton.mp hn.2
    exact (Expr.covers operand d a h.1 hn.1 hnop hcalls).concat
      (Program.fits_not h.2 hnop hbehind)
  | .call _ _ f args, d, a, h, hn, hbehind, hcalls => by
    rw [Expr.At] at h
    rw [Expr.depths, List.map_append, noted_append, List.length_map, Expr.length_depthsIn] at hn
    rw [Expr.calls] at hcalls
    rw [Expr.width, ← Nat.add_assoc] at hbehind ⊢
    have hnop := noted_singleton.mp hn.2
    have hargs := Expr.covers_all args d a h.1 hn.1 hnop
      fun c hc => hcalls c (List.mem_append_left _ hc)
    -- The call itself is among the calls of the statement.
    have hown := hcalls _ (List.mem_append_right _ (List.mem_singleton.mpr rfl))
    exact hargs.concat (Program.fits_call h.2 hnop hbehind hown)

/-- The instructions of some expressions fit, and each expression leaves one value. -/
theorem Expr.covers_all {same : Literal → Literal → Prop} {inside : Bool} {home : Nat} :
    ∀ (es : List Expr) (d a : Nat), Expr.AllAt p same es a →
      Noted note a ((Expr.depthsIn d es).map (⟨·, inside, home⟩)) →
      note (a + Expr.widths es) = ⟨d + es.length, inside, home⟩ →
      (∀ c ∈ Expr.callsIn es, ∃ s ∈ placed, c ∈ s.stmt.calls) →
      p.Covers note placed a (a + Expr.widths es) []
  | [], d, a, _, _, _, _ => by
    rw [Expr.widths]
    exact .nil a
  | e :: rest, d, a, h, hn, hbehind, hcalls => by
    rw [Expr.AllAt] at h
    rw [Expr.depthsIn, List.map_append, noted_append, List.length_map, Expr.length_depths] at hn
    rw [Expr.callsIn] at hcalls
    rw [Expr.widths, ← Nat.add_assoc] at hbehind ⊢
    rw [List.length_cons, Nat.add_comm rest.length, ← Nat.add_assoc d] at hbehind
    have hhead := Expr.covers e d a h.1 hn.1 (noted_depthsIn_start hn.2 hbehind)
      fun c hc => hcalls c (List.mem_append_left _ hc)
    exact hhead.append (Expr.covers_all rest (d + 1) _ h.2 hn.2 hbehind
      fun c hc => hcalls c (List.mem_append_right _ hc))

end

/-! ## Statements -/

namespace Program

variable {i home target : Nat} {inside : Bool}

/-- A store takes the only value, so a statement can begin behind it. -/
theorem fits_storeVar {name : String} (h : p.VariableAt .storeVar name i)
    (hn : note i = ⟨1, inside, home⟩) (hn' : note (i + 1) = .rest inside (i + 1)) :
    p.Fits note placed i := by
  obtain ⟨k, hcode, hname⟩ := h
  refine .step hcode rfl nofun nofun nofun nofun (fun _ => ⟨name, hname⟩) ?_ (.anew hn hn' rfl)
  rw [hn]
  exact Nat.le_refl 1

/-- Dropping the only value lets a statement begin. -/
theorem fits_pop (h : p.PlainAt .pop i) (hn : note i = ⟨1, inside, home⟩)
    (hn' : note (i + 1) = .rest inside (i + 1)) : p.Fits note placed i := by
  refine .step h rfl nofun nofun nofun nofun nofun ?_ (.anew hn hn' rfl)
  rw [hn]
  exact Nat.le_refl 1

/-- An instruction that does nothing stands between statements. -/
theorem fits_nop (h : p.PlainAt .nop i) (hn : note i = .rest inside i)
    (hn' : note (i + 1) = .rest inside (i + 1)) : p.Fits note placed i :=
  .step h rfl nofun nofun nofun nofun nofun (Nat.zero_le _) (.anew hn hn' rfl)

/-- A jump leads from between statements to between statements. -/
theorem fits_jump (h : p.GotoAt .jump target i) (ht : target ≤ p.code.size)
    (hn : note i = .rest inside i) (hn' : note target = .rest inside target) :
    p.Fits note placed i := by
  refine ⟨_, h, Nat.zero_le _, ?_, nofun, nofun, nofun, nofun, nofun, nofun⟩
  intro j hj
  rw [List.mem_singleton.mp hj]
  exact ⟨ht, .anew hn hn' rfl⟩

/-- A conditional jump takes the only value, and both ways lead to the beginning of a statement. -/
theorem fits_jumpIfFalse (h : p.GotoAt .jumpIfFalse target i) (ht : target ≤ p.code.size)
    (hn : note i = ⟨1, inside, home⟩) (hn' : note (i + 1) = .rest inside (i + 1))
    (hn'' : note target = .rest inside target) : p.Fits note placed i := by
  refine ⟨_, h, ?_, ?_, nofun, nofun, nofun, nofun, nofun, nofun⟩
  · rw [hn]
    exact Nat.le_refl 1
  · intro j hj
    rcases List.mem_cons.mp hj with rfl | hj
    · exact ⟨lt_size_of_code h, .anew hn hn' rfl⟩
    · rw [List.mem_singleton.mp hj]
      exact ⟨ht, .anew hn hn'' rfl⟩

/-- A return without a value. -/
theorem fits_ret (h : p.PlainAt .ret i) (hn : note i = .rest inside i)
    (hout : inside = false → ∃ span value a, ⟨.returnStmt span value, false, a⟩ ∈ placed) :
    p.Fits note placed i := by
  refine ⟨_, h, Nat.zero_le _, nofun, nofun, nofun, nofun, nofun, fun _ => .inl ?_, fun _ hin => ?_⟩
  · rw [hn]
    rfl
  · rw [hn] at hin
    exact hout hin

/-- A return with the value of its expression. -/
theorem fits_ret_value {span : Span} {e : Expr} {a : Nat} (h : p.PlainAt .ret (a + e.width))
    (hn : note (a + e.width) = ⟨1, inside, a⟩)
    (hs : ⟨.returnStmt span (some e), inside, a⟩ ∈ placed) : p.Fits note placed (a + e.width) := by
  refine ⟨_, h, Nat.zero_le _, nofun, nofun, nofun, nofun, nofun, fun _ => .inr ?_, fun _ hin => ?_⟩
  · rw [hn]
    exact ⟨rfl, span, e, rfl, hs⟩
  · rw [hn] at hin
    exact ⟨span, some e, a, by rwa [← show inside = false from hin]⟩

end Program

/-- Behind a block there are no values on the stack, and the same function goes on unless the block
ends with a return. -/
def EndsAt (note : Nat → Note) (inside : Bool) (ss : List Stmt) (b : Nat) : Prop :=
  (note b).depth = 0 ∧ (endsWithReturn ss = false → note b = .rest inside b)

/-- A place between statements ends every block of its function. -/
theorem EndsAt.of_rest {inside : Bool} {ss : List Stmt} {b : Nat} (h : note b = .rest inside b) :
    EndsAt note inside ss b :=
  ⟨by rw [h]; rfl, fun _ => h⟩

/-- The loop around a statement leads to boundaries of statements in the code. -/
def LoopRests (p : Program) (note : Nat → Note) (around : Option Program.LoopBounds)
    (inside : Bool) : Prop :=
  ∀ l, around = some l → (l.start ≤ p.code.size ∧ note l.start = .rest inside l.start) ∧
    l.exit ≤ p.code.size ∧ note l.exit = .rest inside l.exit

/-- The instructions of a statement fit wherever it stands among given ones, and so do the
beginnings and ends of the statements in it. -/
def Stmt.Covered (p : Program) (note : Nat → Note) (placed : List Placed)
    (same : Literal → Literal → Prop) (around : Option Program.LoopBounds) (inside : Bool)
    (s : Stmt) : Prop :=
  ∀ a : Nat, s.At p same around a → Noted note a (s.notes inside a) →
    EndsAt note inside [s] (a + s.width) → a + s.width ≤ p.code.size →
    (∀ x ∈ ⟨s, inside, a⟩ :: s.inner inside a, x ∈ placed) →
    p.Covers note placed a (a + s.width) (s.inner inside a)

/-- The instructions of a block fit wherever it stands among given statements, and so do the
beginnings and ends of its statements. -/
def Stmt.CoveredAll (p : Program) (note : Nat → Note) (placed : List Placed)
    (same : Literal → Literal → Prop) (around : Option Program.LoopBounds) (inside : Bool)
    (ss : List Stmt) : Prop :=
  ∀ a : Nat, Stmt.AllAt p same around ss a → Noted note a (Stmt.notesIn inside ss a) →
    EndsAt note inside ss (a + Stmt.widths ss) → a + Stmt.widths ss ≤ p.code.size →
    (∀ x ∈ Stmt.placed inside ss a, x ∈ placed) →
    p.Covers note placed a (a + Stmt.widths ss) (Stmt.placed inside ss a)

/-- A jump to an end of the loop around it, which does nothing where there is no loop. -/
theorem Program.Covers.leap {around : Option Program.LoopBounds}
    {target : Program.LoopBounds → Nat} {inside : Bool} {a : Nat}
    (hcode : p.code[a]? = some (around.elim ⟨.nop, 0, 0⟩ fun l => ⟨.jump, target l, 0⟩))
    (hn : note a = .rest inside a) (hnext : note (a + 1) = .rest inside (a + 1))
    (htarget : ∀ l, around = some l →
      target l ≤ p.code.size ∧ note (target l) = .rest inside (target l)) :
    p.Covers note placed a (a + 1) [] := by
  cases around with
  | none => exact .one (Program.fits_nop hcode hn hnext)
  | some l => exact .one (Program.fits_jump hcode (htarget l rfl).1 hn (htarget l rfl).2)

section Statements

variable {same : Literal → Literal → Prop} (around : Option Program.LoopBounds) (inside : Bool)
  (span : Span)

/-- A declaration stores a value, or is no instruction at all. -/
theorem Stmt.covered_let (name : String) (value : Option Expr) :
    Stmt.Covered p note placed same around inside (.letStmt span name value) := by
  intro a h hn hend _ hs
  cases value with
  | none =>
    rw [Stmt.width, Stmt.inner]
    exact .nil a
  | some value =>
    rw [Stmt.At] at h
    rw [Stmt.notes, noted_notes] at hn
    have hend := hend.2 rfl
    rw [Stmt.width, ← Nat.add_assoc] at hend ⊢
    rw [Stmt.inner]
    have hvalue := Expr.covers value 0 a h.1 hn.1 hn.2
      fun c hc => ⟨_, hs _ (List.mem_cons_self ..), hc⟩
    exact hvalue.concat (Program.fits_storeVar h.2 hn.2 hend)

/-- A `return` takes at most one value. -/
theorem Stmt.covered_return (value : Option Expr) :
    Stmt.Covered p note placed same around inside (.returnStmt span value) := by
  intro a h hn _ _ hs
  have hown := hs _ (List.mem_cons_self ..)
  cases value with
  | none =>
    rw [Stmt.At] at h
    rw [Stmt.notes] at hn
    rw [Stmt.width, Expr.width?, Stmt.inner]
    refine .one (Program.fits_ret h hn.1 fun hin => ⟨span, none, a, ?_⟩)
    rw [← hin]
    exact hown
  | some value =>
    rw [Stmt.At] at h
    rw [Stmt.notes, noted_notes] at hn
    rw [Stmt.width, Expr.width?, Stmt.inner, ← Nat.add_assoc]
    have hvalue := Expr.covers value 0 a h.1 hn.1 hn.2 fun c hc => ⟨_, hown, hc⟩
    exact hvalue.concat (Program.fits_ret_value h.2 hn.2 hown)

/-- The value of an expression that stands alone is dropped. -/
theorem Stmt.covered_expr (value : Expr) :
    Stmt.Covered p note placed same around inside (.exprStmt span value) := by
  intro a h hn hend _ hs
  rw [Stmt.At] at h
  rw [Stmt.notes, noted_notes] at hn
  have hend := hend.2 rfl
  rw [Stmt.width, ← Nat.add_assoc] at hend ⊢
  rw [Stmt.inner]
  have hvalue := Expr.covers value 0 a h.1 hn.1 hn.2
    fun c hc => ⟨_, hs _ (List.mem_cons_self ..), hc⟩
  exact hvalue.concat (Program.fits_pop h.2 hn.2 hend)

/-- A `break` leads behind the loop around it. -/
theorem Stmt.covered_break (hloop : LoopRests p note around inside) :
    Stmt.Covered p note placed same around inside (.breakStmt span) := by
  intro a h hn hend _ _
  have hcode : p.code[a]? = some (around.elim ⟨.nop, 0, 0⟩ fun l => ⟨.jump, l.exit, 0⟩) := by
    cases around <;> rwa [Stmt.At] at h
  have hend := hend.2 rfl
  rw [Stmt.notes] at hn
  rw [Stmt.width] at hend ⊢
  rw [Stmt.inner]
  exact .leap hcode hn.1 hend fun l hl => (hloop l hl).2

/-- A `continue` leads to the start of the loop around it. -/
theorem Stmt.covered_continue (hloop : LoopRests p note around inside) :
    Stmt.Covered p note placed same around inside (.continueStmt span) := by
  intro a h hn hend _ _
  have hcode : p.code[a]? = some (around.elim ⟨.nop, 0, 0⟩ fun l => ⟨.jump, l.start, 0⟩) := by
    cases around <;> rwa [Stmt.At] at h
  have hend := hend.2 rfl
  rw [Stmt.notes] at hn
  rw [Stmt.width] at hend ⊢
  rw [Stmt.inner]
  exact .leap hcode hn.1 hend fun l hl => (hloop l hl).1

/-- The code of a function is passed by, and starts and ends with an empty stack. -/
theorem Stmt.covered_fn (name : String) (params : List String) {body : List Stmt}
    (hbody : Stmt.CoveredAll p note placed same none true body) :
    Stmt.Covered p note placed same around inside (.fnStmt span name params body) := by
  intro a h hn hend hsize hs
  rw [Stmt.At] at h
  obtain ⟨hjump, hat, hret⟩ := h
  rw [Stmt.notes] at hn
  obtain ⟨hna, hn⟩ := hn
  rw [noted_append, Stmt.length_notesIn] at hn
  have hend := hend.2 rfl
  rw [Stmt.inner] at hs ⊢
  rw [Stmt.width, ← Nat.add_assoc, ← Nat.add_assoc] at hend hsize ⊢
  have hover : p.Covers note placed a (a + 1) [] := .one (Program.fits_jump hjump hsize hna hend)
  have hin : ∀ x ∈ Stmt.placed true body (a + 1), x ∈ placed := fun x hx =>
    hs x (List.mem_cons_of_mem _ hx)
  -- A return is added behind the body only if the body does not end with one. If it does, the
  -- machine never comes to the position behind the body from inside.
  by_cases hends : endsWithReturn body = true
  · rw [if_pos hends, Nat.add_zero] at hend hsize ⊢
    have hall := hbody (a + 1) hat hn.1
      ⟨by rw [hend]; rfl, fun h => by rw [hends] at h; cases h⟩ hsize hin
    exact hover.append hall
  · rw [if_neg hends] at hn hend hsize ⊢
    have hnret := noted_singleton.mp hn.2
    have hall := hbody (a + 1) hat hn.1 (.of_rest hnret) (Nat.le_of_succ_le hsize) hin
    exact (hover.append hall).concat (Program.fits_ret (hret.resolve_left hends) hnret nofun)

/-- A branch takes the value of its condition off the stack, whichever way it goes. -/
theorem Stmt.covered_if (cond : Expr) {body : List Stmt}
    (hbody : Stmt.CoveredAll p note placed same around inside body) :
    Stmt.Covered p note placed same around inside (.ifStmt span cond body) := by
  intro a h hn hend hsize hs
  rw [Stmt.At] at h
  obtain ⟨hcond, hjump, hat⟩ := h
  rw [Stmt.notes, noted_append, noted_notes, Expr.length_notes, ← Nat.add_assoc] at hn
  obtain ⟨hncond, hnbody⟩ := hn
  have hend := hend.2 rfl
  rw [Stmt.inner] at hs ⊢
  rw [Stmt.width, ← Nat.add_assoc, ← Nat.add_assoc] at hend hsize ⊢
  have hstart := Stmt.noted_block_start hnbody fun _ => hend
  have htest := Expr.covers cond 0 a hcond hncond.1 hncond.2
    fun c hc => ⟨_, hs _ (List.mem_cons_self ..), hc⟩
  have hblock := hbody _ hat hnbody (.of_rest hend) hsize
    fun x hx => hs x (List.mem_cons_of_mem _ hx)
  exact (htest.concat (Program.fits_jumpIfFalse hjump hsize hncond.2 hstart hend)).append hblock

/-- Both sides of a branch start and end at boundaries of statements. -/
theorem Stmt.covered_ifElse (cond : Expr) {body other : List Stmt}
    (hbody : Stmt.CoveredAll p note placed same around inside body)
    (hother : Stmt.CoveredAll p note placed same around inside other) :
    Stmt.Covered p note placed same around inside (.ifElseStmt span cond body other) := by
  intro a h hn hend hsize hs
  rw [Stmt.At] at h
  obtain ⟨hcond, hjump, hat, hover, hat'⟩ := h
  rw [Stmt.notes, noted_append, noted_notes, Expr.length_notes, ← Nat.add_assoc, noted_append,
    Stmt.length_notesIn] at hn
  obtain ⟨hncond, hnbody, hnover, hnother⟩ := hn
  have hend := hend.2 rfl
  rw [Stmt.inner] at hs ⊢
  simp only [Stmt.width, ← Nat.add_assoc] at hend hsize ⊢
  have hstart := Stmt.noted_block_start hnbody fun _ => hnover
  have hstart' := Stmt.noted_block_start hnother fun _ => hend
  have htest := Expr.covers cond 0 a hcond hncond.1 hncond.2
    fun c hc => ⟨_, hs _ (List.mem_cons_self ..), hc⟩
  have hthen := hbody _ hat hnbody (.of_rest hnover)
    (Nat.le_of_lt (Program.lt_size_of_code hover))
    fun x hx => hs x (List.mem_cons_of_mem _ (List.mem_append_left _ hx))
  have helse := hother _ hat' hnother (.of_rest hend) hsize
    fun x hx => hs x (List.mem_cons_of_mem _ (List.mem_append_right _ hx))
  have hfits : p.Fits note placed (a + cond.width) := Program.fits_jumpIfFalse hjump
    (Program.lt_size_of_code hover) hncond.2 hstart hstart'
  exact (((htest.concat hfits).append hthen).concat
    (Program.fits_jump hover hsize hnover hend)).append helse

/-- A loop comes back to its condition with an empty stack. -/
theorem Stmt.covered_while (cond : Expr) {body : List Stmt}
    (hbody : ∀ l, LoopRests p note (some l) inside →
      Stmt.CoveredAll p note placed same (some l) inside body) :
    Stmt.Covered p note placed same around inside (.whileStmt span cond body) := by
  intro a h hn hend hsize hs
  rw [Stmt.At] at h
  obtain ⟨hcond, hjump, hat, hback⟩ := h
  rw [Stmt.notes, noted_append, Expr.length_notes, ← Nat.add_assoc, noted_append,
    Stmt.length_notesIn, noted_singleton] at hn
  obtain ⟨hncond, hnbody, hnback⟩ := hn
  have hfirst := noted_notes_start hncond
  rw [noted_notes] at hncond
  have hend := hend.2 rfl
  rw [Stmt.inner] at hs ⊢
  simp only [Stmt.width, ← Nat.add_assoc] at hend hsize ⊢
  have hstart := Stmt.noted_block_start hnbody fun _ => hnback
  have htest := Expr.covers cond 0 a hcond hncond.1 hncond.2
    fun c hc => ⟨_, hs _ (List.mem_cons_self ..), hc⟩
  -- `continue` goes to the condition and `break` behind the loop: both are statement boundaries.
  have ha : a ≤ p.code.size := by omega
  have hloop : LoopRests p note (some ⟨a, a + cond.width + 1 + Stmt.widths body + 1⟩) inside := by
    rintro l ⟨⟩
    exact ⟨⟨ha, hfirst⟩, hsize, hend⟩
  have hblock := hbody _ hloop _ hat hnbody (.of_rest hnback)
    (Nat.le_of_lt (Program.lt_size_of_code hback)) fun x hx => hs x (List.mem_cons_of_mem _ hx)
  exact ((htest.concat (Program.fits_jumpIfFalse hjump hsize hncond.2 hstart hend)).append
    hblock).concat (Program.fits_jump hback ha hnback hfirst)

end Statements

mutual

/-- The instructions of a statement fit, and so do the beginnings and ends of the statements in
it. -/
theorem Stmt.covers {same : Literal → Literal → Prop} (around : Option Program.LoopBounds)
    (inside : Bool) (hloop : LoopRests p note around inside) :
    ∀ s : Stmt, Stmt.Covered p note placed same around inside s
  | .letStmt span name value => Stmt.covered_let around inside span name value
  | .fnStmt span name params body =>
    Stmt.covered_fn around inside span name params (Stmt.covers_all none true nofun body)
  | .returnStmt span value => Stmt.covered_return around inside span value
  | .breakStmt span => Stmt.covered_break around inside span hloop
  | .continueStmt span => Stmt.covered_continue around inside span hloop
  | .ifStmt span cond body =>
    Stmt.covered_if around inside span cond (Stmt.covers_all around inside hloop body)
  | .ifElseStmt span cond body other =>
    Stmt.covered_ifElse around inside span cond (Stmt.covers_all around inside hloop body)
      (Stmt.covers_all around inside hloop other)
  | .whileStmt span cond body =>
    Stmt.covered_while around inside span cond fun l hloop =>
      Stmt.covers_all (some l) inside hloop body
  | .exprStmt span value => Stmt.covered_expr around inside span value

/-- The instructions of some statements fit, and so do the beginnings and ends of the statements. -/
theorem Stmt.covers_all {same : Literal → Literal → Prop} (around : Option Program.LoopBounds)
    (inside : Bool) (hloop : LoopRests p note around inside) :
    ∀ ss : List Stmt, Stmt.CoveredAll p note placed same around inside ss
  | [], a, _, _, _, _, _ => by
    rw [Stmt.widths, Stmt.placed]
    exact .nil a
  | [s], a, h, hn, hend, hsize, hs => by
    have hstart := Stmt.noted_block_start hn hend.2
    rw [Stmt.AllAt] at h
    rw [Stmt.notesIn, Stmt.notesIn, List.append_nil] at hn
    rw [Stmt.widths, Stmt.widths, Nat.add_zero] at hend hsize ⊢
    rw [Stmt.placed, Stmt.placed, List.append_nil] at hs ⊢
    exact (Stmt.covers around inside hloop s a h.1 hn hend hsize hs).cons hn hstart hend.1
  | s :: t :: rest, a, h, hn, hend, hsize, hs => by
    have hstart := Stmt.noted_block_start hn hend.2
    rw [Stmt.AllAt] at h
    rw [Stmt.notesIn, noted_append, Stmt.length_notes] at hn
    rw [EndsAt, endsWithReturn_cons_cons] at hend
    rw [Stmt.widths, ← Nat.add_assoc] at hend hsize ⊢
    rw [Stmt.placed] at hs ⊢
    have hbetween := Stmt.noted_block_start hn.2 hend.2
    have hsize' : a + s.width ≤ p.code.size := Nat.le_trans (Nat.le_add_right ..) hsize
    have hfirst := Stmt.covers around inside hloop s a h.1 hn.1 (.of_rest hbetween) hsize'
      fun x hx => hs x (List.mem_append_left _ hx)
    have hrest := Stmt.covers_all around inside hloop (t :: rest) _ h.2 hn.2 hend hsize
      fun x hx => hs x (List.mem_append_right _ hx)
    exact (hfirst.append hrest).cons hn.1 hstart (by rw [hbetween]; rfl)

end

end Fits

/-! ## Generated programs -/

/-- Notes that fit every instruction of a program made from some statements. -/
structure Program.Noted (p : Program) (note : Nat → Note) (placed : List Placed) : Prop where
  start : note 0 = .rest false 0
  finish : note p.code.size = .rest false p.code.size
  fits : ∀ {i x}, p.code[i]? = some x → p.FitsAt note placed i x
  /-- The function table leads to the beginnings of functions. -/
  entry : ∀ {name entry}, p.function? name = some entry →
    entry.offset ≤ p.code.size ∧ note entry.offset = .rest true entry.offset
  rests : ∀ x ∈ placed, Scriptlet.Noted note x.offset (x.stmt.notes x.inside x.offset) ∧
    note x.offset = .rest x.inside x.offset ∧ (note (x.offset + x.stmt.width)).depth = 0

/-- The notes of a module fit its program. -/
theorem Module.generate_noted (m : Module) : m.generate.Noted m.note m.placed := by
  have hsize := m.size_generate
  have hlen := Stmt.length_notesIn false m.body 0
  have hat : Stmt.AllAt m.generate (fun _ _ => True) none m.body 0 :=
    m.generate_at fun v _ => ⟨trivial, fun _ _ _ => trivial⟩
  have hnoted : Scriptlet.Noted m.note 0 (Stmt.notesIn false m.body 0) := by
    refine noted_of_getElem? fun i hi => ?_
    rw [Nat.zero_add, note, List.getD_eq_getElem?_getD, List.getElem?_eq_getElem hi]
    rfl
  have hfinish : m.note (Stmt.widths m.body) = .rest false (Stmt.widths m.body) := by
    rw [note, List.getD_eq_getElem?_getD, List.getElem?_eq_none (Nat.le_of_eq hlen)]
    rfl
  have hcovers : m.generate.Covers m.note m.placed 0 (Stmt.widths m.body) m.placed := by
    rw [← Nat.zero_add (Stmt.widths m.body)] at hfinish ⊢
    have hfit : 0 + Stmt.widths m.body ≤ m.generate.code.size := by omega
    exact Stmt.covers_all none false nofun m.body 0 hat hnoted (.of_rest hfinish) hfit
      fun x hx => hx
  have hbodies : Stmt.BodiesRight
      (fun _ a => a ≤ m.generate.code.size ∧ m.note a = .rest true a) m.placed := by
    -- The table only has offsets of bodies, and a body begins at a statement boundary.
    intro span name params body inside a hx
    exact ⟨(Module.bodies_at hat span name params body inside a hx).1,
      Stmt.noted_body_start (hcovers.rests _ hx).1⟩
  refine ⟨Stmt.noted_block_start hnoted fun _ => by rwa [Nat.zero_add], by rwa [hsize], ?_, ?_,
    hcovers.rests⟩
  · intro i x hcode
    have hi := Program.lt_size_of_code hcode
    rw [hsize] at hi
    obtain ⟨y, hy, hfits⟩ := hcovers.fits i (Nat.zero_le i) hi
    rw [hcode] at hy
    cases hy
    exact hfits
  · intro name entry hentry
    have htable := m.generate_table hbodies name
    have hfind : m.generate.functions.find? name = some entry := hentry
    split at htable
    · rw [hfind] at htable
      cases htable
    · obtain ⟨a, ha, hright⟩ := htable
      rw [hfind] at ha
      cases ha
      exact hright

end Scriptlet
