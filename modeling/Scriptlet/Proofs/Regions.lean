import Scriptlet.Proofs.Placement

/-!
# Functions own ranges of the code

The code of a function is the range behind the jump over it, up to the target of this jump.  A jump
leads into such a range exactly if it stands there, and the range ends with a return
(`Module.FunctionRegion.closed`).  The function table leads to the beginnings of such ranges
(`Module.functionRegion_of_entry`).
-/

namespace Scriptlet

/-! ## Jumps between two offsets -/

namespace Program

/-- Every jump between two offsets has a target that is right for it. -/
def JumpsTo (p : Program) (a b : Nat) (right : Nat → Nat → Prop) : Prop :=
  ∀ (i : Nat) (x : Instruction), a ≤ i → i < b → p.code[i]? = some x → x.op.isJump = true →
    right i x.arg1

namespace JumpsTo

variable {p : Program} {a b c : Nat} {right right' : Nat → Nat → Prop}

theorem nil (a : Nat) : p.JumpsTo a a right := by
  intro i x ha hb
  omega

/-- Code behind other code jumps as both parts do. -/
theorem append (h : p.JumpsTo a b right) (h' : p.JumpsTo b c right) : p.JumpsTo a c right := by
  intro i x ha hc
  by_cases hb : i < b
  · exact h i x ha hb
  · exact h' i x (Nat.le_of_not_lt hb) hc

/-- Jumps may be allowed more targets. -/
theorem mono (h : p.JumpsTo a b right)
    (hright : ∀ i t, a ≤ i → i < b → right i t → right' i t) : p.JumpsTo a b right' := by
  intro i x ha hb hcode hjump
  exact hright i x.arg1 ha hb (h i x ha hb hcode hjump)

/-- One instruction that is no jump. -/
theorem plain {op : Opcode} {k n : Nat} (hcode : p.code[a]? = some ⟨op, k, n⟩)
    (hop : op.isJump = false) : p.JumpsTo a (a + 1) right := by
  intro i x ha hb hx hjump
  obtain rfl : i = a := by omega
  rw [hcode] at hx
  cases hx
  rw [hop] at hjump
  cases hjump

/-- One jump. -/
theorem goto {op : Opcode} {target : Nat} (hcode : p.GotoAt op target a)
    (hright : right a target) : p.JumpsTo a (a + 1) right := by
  intro i x ha hb hx hjump
  obtain rfl : i = a := by omega
  rw [GotoAt, hx] at hcode
  cases hcode
  exact hright

end JumpsTo

end Program

section Trees

variable {p : Program} {same : Literal → Literal → Prop} {right : Nat → Nat → Prop}

mutual

/-- An expression has no jumps. -/
theorem Expr.jumpsTo : ∀ (e : Expr) (a : Nat), e.At p same a → p.JumpsTo a (a + e.width) right
  | .literal _ value, a, h => by
    rw [Expr.At] at h
    obtain ⟨k, found, hcode, -⟩ := h
    rw [Expr.width]
    exact .plain hcode rfl
  | .name _ _ x, a, h => by
    rw [Expr.At] at h
    obtain ⟨k, hcode, -⟩ := h
    rw [Expr.width]
    exact .plain hcode rfl
  | .binary _ op left right, a, h => by
    rw [Expr.At] at h
    obtain ⟨hleft, hright, hop⟩ := h
    rw [Expr.width, ← Nat.add_assoc, ← Nat.add_assoc]
    exact ((Expr.jumpsTo left a hleft).append (Expr.jumpsTo right _ hright)).append
      (.plain hop (by cases op <;> rfl))
  | .not _ operand, a, h => by
    rw [Expr.At] at h
    rw [Expr.width, ← Nat.add_assoc]
    exact (Expr.jumpsTo operand a h.1).append (.plain h.2 rfl)
  | .call _ _ f args, a, h => by
    rw [Expr.At] at h
    obtain ⟨hargs, k, hcode, -⟩ := h
    rw [Expr.width, ← Nat.add_assoc]
    exact (Expr.jumpsTo_all args a hargs).append (.plain hcode rfl)

/-- Some expressions have no jumps. -/
theorem Expr.jumpsTo_all : ∀ (es : List Expr) (a : Nat), Expr.AllAt p same es a →
    p.JumpsTo a (a + Expr.widths es) right
  | [], a, _ => .nil a
  | e :: rest, a, h => by
    rw [Expr.AllAt] at h
    rw [Expr.widths, ← Nat.add_assoc]
    exact (Expr.jumpsTo e a h.1).append (Expr.jumpsTo_all rest _ h.2)

end

/-! ## Where the jumps of a statement land -/

/-- A target between two offsets, or one that the loop around gives. -/
def Program.Lands (around : Option Program.LoopBounds) (a b t : Nat) : Prop :=
  a ≤ t ∧ t ≤ b ∨ ∃ l, around = some l ∧ (t = l.start ∨ t = l.exit)

/-- A target in some code lies in more code. -/
theorem Program.Lands.mono {around : Option Program.LoopBounds} {a b a' b' t : Nat}
    (h : Program.Lands around a b t) (ha : a' ≤ a) (hb : b ≤ b') :
    Program.Lands around a' b' t := by
  rcases h with h | h
  · exact .inl ⟨by omega, by omega⟩
  · exact .inr h

/-- Jumps that stay in some code stay in more code. -/
theorem Program.JumpsTo.widen {around : Option Program.LoopBounds} {a b a' b' c d : Nat}
    (h : p.JumpsTo c d fun _ => Program.Lands around a b) (ha : a' ≤ a) (hb : b ≤ b') :
    p.JumpsTo c d fun _ => Program.Lands around a' b' :=
  h.mono fun _ _ _ _ ht => ht.mono ha hb

/-- The return behind the statements of a function is no jump. -/
theorem Program.ReturnsBehind.jumpsTo {body : List Stmt} {a : Nat} (h : p.ReturnsBehind body a) :
    p.JumpsTo (a + Stmt.widths body)
      (a + Stmt.widths body + if endsWithReturn body then 0 else 1) right := by
  rcases h with hends | hret
  · rw [if_pos hends]
    exact .nil _
  · by_cases hends : endsWithReturn body = true
    · rw [if_pos hends]
      exact .nil _
    · rw [if_neg hends]
      exact .plain hret rfl

mutual

/-- The jumps of a statement land in its code, at its end, or where the loop around says. -/
theorem Stmt.jumpsTo (around : Option Program.LoopBounds) : ∀ (s : Stmt) (a : Nat),
    s.At p same around a → p.JumpsTo a (a + s.width) fun _ => Program.Lands around a (a + s.width)
  | .letStmt _ _ none, a, _ => .nil a
  | .letStmt _ _ (some value), a, h => by
    rw [Stmt.At] at h
    obtain ⟨hvalue, k, hcode, -⟩ := h
    rw [Stmt.width, ← Nat.add_assoc]
    exact (value.jumpsTo a hvalue).append (.plain hcode rfl)
  | .fnStmt _ _ _ body, a, h => by
    rw [Stmt.At] at h
    obtain ⟨hskip, hbody, hret⟩ := h
    have hjumps := Stmt.jumpsTo_all none body (a + 1) hbody
    rw [Stmt.width, ← Nat.add_assoc, ← Nat.add_assoc]
    refine ((Program.JumpsTo.goto hskip (.inl ⟨by omega, by omega⟩)).append ?_).append hret.jumpsTo
    refine hjumps.mono fun i t hi hb ht => .inl ?_
    rcases ht with ht | ⟨l, hl, -⟩
    · omega
    · cases hl
  | .returnStmt _ none, a, h => by
    rw [Stmt.At] at h
    rw [Stmt.width, Expr.width?, Nat.zero_add]
    exact .plain h rfl
  | .returnStmt _ (some value), a, h => by
    rw [Stmt.At] at h
    rw [Stmt.width, Expr.width?, ← Nat.add_assoc]
    exact (value.jumpsTo a h.1).append (.plain h.2 rfl)
  | .breakStmt _, a, h => by
    rw [Stmt.width]
    cases around with
    | none => rw [Stmt.At] at h; exact .plain h rfl
    | some l => rw [Stmt.At] at h; exact .goto h (.inr ⟨l, rfl, .inr rfl⟩)
  | .continueStmt _, a, h => by
    rw [Stmt.width]
    cases around with
    | none => rw [Stmt.At] at h; exact .plain h rfl
    | some l => rw [Stmt.At] at h; exact .goto h (.inr ⟨l, rfl, .inl rfl⟩)
  | .ifStmt _ cond body, a, h => by
    rw [Stmt.At] at h
    obtain ⟨hcond, htest, hbody⟩ := h
    have hjumps := Stmt.jumpsTo_all around body _ hbody
    rw [Stmt.width, ← Nat.add_assoc, ← Nat.add_assoc]
    exact ((cond.jumpsTo a hcond).append (.goto htest (.inl ⟨by omega, by omega⟩))).append
      (hjumps.widen (by omega) (by omega))
  | .ifElseStmt _ cond body other, a, h => by
    rw [Stmt.At] at h
    obtain ⟨hcond, htest, hbody, hskip, hother⟩ := h
    have hjumps := Stmt.jumpsTo_all around body _ hbody
    have hjumps' := Stmt.jumpsTo_all around other _ hother
    rw [Stmt.width, ← Nat.add_assoc, ← Nat.add_assoc, ← Nat.add_assoc, ← Nat.add_assoc]
    exact ((((cond.jumpsTo a hcond).append (.goto htest (.inl ⟨by omega, by omega⟩))).append
      (hjumps.widen (by omega) (by omega))).append (.goto hskip (.inl ⟨by omega, by omega⟩))).append
      (hjumps'.widen (by omega) (by omega))
  | .whileStmt _ cond body, a, h => by
    rw [Stmt.At] at h
    obtain ⟨hcond, htest, hbody, hback⟩ := h
    have hjumps := Stmt.jumpsTo_all _ body _ hbody
    rw [Stmt.width, ← Nat.add_assoc, ← Nat.add_assoc, ← Nat.add_assoc]
    refine (((cond.jumpsTo a hcond).append (.goto htest (.inl ⟨by omega, by omega⟩))).append
      ?_).append (.goto hback (.inl ⟨by omega, by omega⟩))
    -- Jumps out of this loop and back to its start land in its code.
    refine hjumps.mono fun i t hi hb ht => .inl ?_
    rcases ht with ht | ⟨l, hl, ht⟩
    · omega
    · cases hl
      dsimp only at ht
      omega
  | .exprStmt _ value, a, h => by
    rw [Stmt.At] at h
    rw [Stmt.width, ← Nat.add_assoc]
    exact (value.jumpsTo a h.1).append (.plain h.2 rfl)

/-- The jumps of a block stay in the block, or go where the loop around leads. -/
theorem Stmt.jumpsTo_all (around : Option Program.LoopBounds) : ∀ (ss : List Stmt) (a : Nat),
    Stmt.AllAt p same around ss a →
      p.JumpsTo a (a + Stmt.widths ss) fun _ => Program.Lands around a (a + Stmt.widths ss)
  | [], a, _ => .nil a
  | s :: rest, a, h => by
    rw [Stmt.AllAt] at h
    have hs := Stmt.jumpsTo around s a h.1
    have hrest := Stmt.jumpsTo_all around rest _ h.2
    rw [Stmt.widths, ← Nat.add_assoc]
    exact (hs.widen (by omega) (by omega)).append (hrest.widen (by omega) (by omega))

end

/-- A block that ends with a return has code. -/
theorem Stmt.widths_pos_of_endsWithReturn : ∀ {ss : List Stmt}, endsWithReturn ss = true →
    0 < Stmt.widths ss
  | [s], h => by
    obtain ⟨span, value, rfl⟩ := endsWithReturn_singleton.mp h
    rw [Stmt.widths, Stmt.width]
    omega
  | s :: t :: rest, h => by
    rw [endsWithReturn_cons_cons] at h
    have := Stmt.widths_pos_of_endsWithReturn h
    rw [Stmt.widths]
    omega

/-- A block that ends with a return has no jumps to its end. -/
theorem Stmt.jumpsTo_of_endsWithReturn : ∀ (ss : List Stmt) (a : Nat),
    Stmt.AllAt p same none ss a → endsWithReturn ss = true →
      p.JumpsTo a (a + Stmt.widths ss) fun _ t => a ≤ t ∧ t < a + Stmt.widths ss
  | [s], a, h, hends => by
    obtain ⟨span, value, rfl⟩ := endsWithReturn_singleton.mp hends
    rw [Stmt.AllAt] at h
    rw [Stmt.widths, Stmt.widths, Nat.add_zero, Stmt.width]
    cases value with
    | none =>
      rw [Stmt.At] at h
      rw [Expr.width?, Nat.zero_add]
      exact .plain h.1 rfl
    | some value =>
      rw [Stmt.At] at h
      rw [Expr.width?, ← Nat.add_assoc]
      exact (value.jumpsTo a h.1.1).append (.plain h.1.2 rfl)
  | s :: t :: rest, a, h, hends => by
    rw [endsWithReturn_cons_cons] at hends
    have hpos := Stmt.widths_pos_of_endsWithReturn hends
    rw [Stmt.AllAt] at h
    have hs := Stmt.jumpsTo none s a h.1
    have hrest := Stmt.jumpsTo_of_endsWithReturn (t :: rest) _ h.2 hends
    rw [Stmt.widths, ← Nat.add_assoc]
    refine Program.JumpsTo.append (hs.mono fun i u hi hb hu => ?_)
      (hrest.mono fun i u hi hb hu => ?_)
    · -- There is no loop around, and behind the first statement there is more code.
      rcases hu with hu | ⟨l, hl, -⟩
      · omega
      · cases hl
    · omega

/-- The jumps of a function land in its code, before the return that ends it. -/
theorem Program.jumpsTo_body {body : List Stmt} {a : Nat} (h : Stmt.AllAt p same none body a)
    (hret : p.ReturnsBehind body a) :
    p.JumpsTo a (a + Stmt.widths body + if endsWithReturn body then 0 else 1) fun _ t =>
      a ≤ t ∧ t < a + Stmt.widths body + if endsWithReturn body then 0 else 1 := by
  refine JumpsTo.append ?_ hret.jumpsTo
  by_cases hends : endsWithReturn body = true
  · rw [if_pos hends]
    exact Stmt.jumpsTo_of_endsWithReturn body a h hends
  · rw [if_neg hends]
    refine (Stmt.jumpsTo_all none body a h).mono fun i t hi hb ht => ?_
    rcases ht with ht | ⟨l, hl, -⟩
    · omega
    · cases hl

end Trees

/-! ## Regions -/

/-- A range of the code. -/
structure Region where
  start : Nat
  finish : Nat

instance : Membership Nat Region := ⟨fun r i => r.start ≤ i ∧ i < r.finish⟩

theorem Region.mem_def {r : Region} {i : Nat} : i ∈ r ↔ r.start ≤ i ∧ i < r.finish := Iff.rfl

/-- Whether a statement defines a function. -/
def Stmt.isFn : Stmt → Bool
  | .fnStmt _ _ _ _ => true
  | _ => false

/-- The name of the function that a statement defines. -/
def Stmt.defines? : Stmt → Option String
  | .fnStmt _ name _ _ => some name
  | _ => none

/-- The range of a statement without its first instruction. -/
def Placed.region (x : Placed) : Region := ⟨x.offset + 1, x.offset + x.stmt.width⟩

mutual

/-- The region of a statement inside of another lies behind the first instruction of the other. -/
theorem Stmt.bounds_of_mem_inner (inside : Bool) : ∀ (s : Stmt) (a : Nat),
    ∀ x ∈ s.inner inside a, a < x.region.start ∧ x.region.finish ≤ a + s.width
  | .fnStmt _ _ _ body, a, x, hx => by
    rw [Stmt.inner] at hx
    have := Stmt.bounds_of_mem_placed true body _ x hx
    rw [Stmt.width]
    omega
  | .ifStmt _ cond body, a, x, hx => by
    rw [Stmt.inner] at hx
    have := Stmt.bounds_of_mem_placed inside body _ x hx
    rw [Stmt.width]
    omega
  | .ifElseStmt _ cond body other, a, x, hx => by
    rw [Stmt.inner] at hx
    rw [Stmt.width]
    rcases List.mem_append.mp hx with hx | hx
    · have := Stmt.bounds_of_mem_placed inside body _ x hx
      omega
    · have := Stmt.bounds_of_mem_placed inside other _ x hx
      omega
  | .whileStmt _ cond body, a, x, hx => by
    rw [Stmt.inner] at hx
    have := Stmt.bounds_of_mem_placed inside body _ x hx
    rw [Stmt.width]
    omega
  | .letStmt _ _ _, _, x, hx | .returnStmt _ _, _, x, hx | .breakStmt _, _, x, hx
  | .continueStmt _, _, x, hx | .exprStmt _ _, _, x, hx => by
    rw [Stmt.inner] at hx
    cases hx

/-- The ranges of the statements in a block lie in the code of the block. -/
theorem Stmt.bounds_of_mem_placed (inside : Bool) : ∀ (ss : List Stmt) (a : Nat),
    ∀ x ∈ Stmt.placed inside ss a,
      a < x.region.start ∧ x.region.finish ≤ a + Stmt.widths ss
  | [], _, x, hx => by
    rw [Stmt.placed] at hx
    cases hx
  | s :: rest, a, x, hx => by
    rw [Stmt.placed] at hx
    rw [Stmt.widths]
    rcases List.mem_append.mp hx with hx | hx
    · rcases List.mem_cons.mp hx with rfl | hx
      · rw [Placed.region]
        dsimp only
        omega
      · have := Stmt.bounds_of_mem_inner inside s a x hx
        omega
    · have := Stmt.bounds_of_mem_placed inside rest _ x hx
      omega

end

/-! ## Jumps and regions -/

/-- Two offsets lie both in a region or both outside. -/
def Region.Together (r : Region) (i j : Nat) : Prop := i ∈ r ↔ j ∈ r

/-- The loop around some code, if any, starts before it and ends behind it. -/
def Program.Encloses (around : Option Program.LoopBounds) (a b : Nat) : Prop :=
  ∀ l, around = some l → l.start ≤ a ∧ b ≤ l.exit

/-- A loop around some code is around each part of it. -/
theorem Program.Encloses.narrow {around : Option Program.LoopBounds} {a b a' b' : Nat}
    (h : Program.Encloses around a b) (ha : a ≤ a') (hb : b' ≤ b) :
    Program.Encloses around a' b' := by
  intro l hl
  obtain ⟨hstart, hexit⟩ := h l hl
  omega

section Regions

variable {p : Program} {same : Literal → Literal → Prop} {around : Option Program.LoopBounds}
  {r : Region} {a b c d : Nat}

/-- Jumps that stand before a region and land there, or behind it and land there, keep apart from
it. -/
theorem Program.JumpsTo.apart (h : p.JumpsTo a b fun _ => Program.Lands around a b)
    (hr : b < r.start ∨ r.finish ≤ a) (haround : Program.Encloses around c d) (hc : c < r.start)
    (hd : r.finish ≤ d) : p.JumpsTo a b r.Together := by
  refine h.mono fun i t hi hb ht => ?_
  have hout : ¬i ∈ r := by
    rw [Region.mem_def]
    omega
  have htarget : ¬t ∈ r := by
    rw [Region.mem_def]
    rcases ht with ht | ⟨l, hl, ht⟩
    · omega
    · have := haround l hl
      omega
  exact iff_of_false hout htarget

/-- A jump outside of a region that does not land there. -/
theorem Program.JumpsTo.goto_apart {op : Opcode} {target : Nat} (hcode : p.GotoAt op target a)
    (ha : a < r.start ∨ r.finish ≤ a) (ht : target < r.start ∨ r.finish ≤ target) :
    p.JumpsTo a (a + 1) r.Together := by
  refine .goto hcode (iff_of_false ?_ ?_)
  · rw [Region.mem_def]
    omega
  · rw [Region.mem_def]
    omega

/-- No jump of a function crosses its border. -/
theorem Stmt.together_self {s : Stmt} (h : s.At p same around a) (hfn : s.isFn = true)
    (inside : Bool) : p.JumpsTo a (a + s.width) (Placed.region ⟨s, inside, a⟩).Together := by
  cases s with
  | fnStmt span name params body =>
    rw [Stmt.At] at h
    obtain ⟨hskip, hbody, hret⟩ := h
    have hjumps := Program.jumpsTo_body hbody hret
    rw [Placed.region, Stmt.width, ← Nat.add_assoc, ← Nat.add_assoc]
    refine Program.JumpsTo.append (.goto_apart hskip (.inl ?_) (.inr ?_))
      (hjumps.mono fun i t hi hb ht => iff_of_true ⟨hi, hb⟩ ht)
    · exact Nat.lt_succ_self a
    · exact Nat.le_refl _
  | _ => cases hfn

mutual

/-- No jump of a statement crosses the border of a function inside it. -/
theorem Stmt.together_of_inner (around : Option Program.LoopBounds) (inside : Bool) :
    ∀ (s : Stmt) (a : Nat), s.At p same around a → Program.Encloses around a (a + s.width) →
      ∀ x ∈ s.inner inside a, x.stmt.isFn = true → p.JumpsTo a (a + s.width) x.region.Together
  | .fnStmt _ _ _ body, a, h, _, x, hx, hfn => by
    rw [Stmt.At] at h
    obtain ⟨hskip, hbody, hret⟩ := h
    rw [Stmt.inner] at hx
    have hx' := Stmt.bounds_of_mem_placed true body _ x hx
    have hjumps := Stmt.together_of_placed none true body _ hbody nofun x hx hfn
    rw [Stmt.width, ← Nat.add_assoc, ← Nat.add_assoc]
    exact ((Program.JumpsTo.goto_apart hskip (by omega) (by omega)).append hjumps).append
      hret.jumpsTo
  | .ifStmt _ cond body, a, h, haround, x, hx, hfn => by
    rw [Stmt.At] at h
    obtain ⟨hcond, htest, hbody⟩ := h
    rw [Stmt.inner] at hx
    have hx' := Stmt.bounds_of_mem_placed inside body _ x hx
    rw [Stmt.width, ← Nat.add_assoc, ← Nat.add_assoc] at haround ⊢
    have hjumps := Stmt.together_of_placed around inside body _ hbody
      (haround.narrow (by omega) (by omega)) x hx hfn
    exact ((cond.jumpsTo a hcond).append (.goto_apart htest (by omega) (by omega))).append hjumps
  | .ifElseStmt _ cond body other, a, h, haround, x, hx, hfn => by
    rw [Stmt.At] at h
    obtain ⟨hcond, htest, hbody, hskip, hother⟩ := h
    rw [Stmt.inner] at hx
    rw [Stmt.width, ← Nat.add_assoc, ← Nat.add_assoc, ← Nat.add_assoc, ← Nat.add_assoc]
      at haround ⊢
    -- The function is defined in one of the blocks, and the jumps of the other one stay apart from
    -- it.
    rcases List.mem_append.mp hx with hx | hx
    · have hx' := Stmt.bounds_of_mem_placed inside body _ x hx
      have hjumps := Stmt.together_of_placed around inside body _ hbody
        (haround.narrow (by omega) (by omega)) x hx hfn
      have hapart := (Stmt.jumpsTo_all around other _ hother).apart (r := x.region)
        (.inr (by omega)) haround (by omega) (by omega)
      exact ((((cond.jumpsTo a hcond).append (.goto_apart htest (by omega) (by omega))).append
        hjumps).append (.goto_apart hskip (by omega) (by omega))).append hapart
    · have hx' := Stmt.bounds_of_mem_placed inside other _ x hx
      have hjumps := Stmt.together_of_placed around inside other _ hother
        (haround.narrow (by omega) (by omega)) x hx hfn
      have hapart := (Stmt.jumpsTo_all around body _ hbody).apart (r := x.region)
        (.inl (by omega)) haround (by omega) (by omega)
      exact ((((cond.jumpsTo a hcond).append (.goto_apart htest (by omega) (by omega))).append
        hapart).append (.goto_apart hskip (by omega) (by omega))).append hjumps
  | .whileStmt _ cond body, a, h, _, x, hx, hfn => by
    rw [Stmt.At] at h
    obtain ⟨hcond, htest, hbody, hback⟩ := h
    rw [Stmt.inner] at hx
    have hx' := Stmt.bounds_of_mem_placed inside body _ x hx
    -- Inside of the loop its own bounds are the ones around.
    have hjumps := Stmt.together_of_placed _ inside body _ hbody
      (by rintro _ ⟨⟩; dsimp only; omega) x hx hfn
    rw [Stmt.width, ← Nat.add_assoc, ← Nat.add_assoc, ← Nat.add_assoc]
    exact (((cond.jumpsTo a hcond).append (.goto_apart htest (by omega) (by omega))).append
      hjumps).append (.goto_apart hback (by omega) (by omega))
  | .letStmt _ _ _, _, _, _, x, hx, _ | .returnStmt _ _, _, _, _, x, hx, _
  | .breakStmt _, _, _, _, x, hx, _ | .continueStmt _, _, _, _, x, hx, _
  | .exprStmt _ _, _, _, _, x, hx, _ => by
    rw [Stmt.inner] at hx
    cases hx

/-- No jump in a block enters or leaves a function that the block defines. -/
theorem Stmt.together_of_placed (around : Option Program.LoopBounds) (inside : Bool) :
    ∀ (ss : List Stmt) (a : Nat), Stmt.AllAt p same around ss a →
      Program.Encloses around a (a + Stmt.widths ss) →
      ∀ x ∈ Stmt.placed inside ss a, x.stmt.isFn = true →
        p.JumpsTo a (a + Stmt.widths ss) x.region.Together
  | [], _, _, _, x, hx, _ => by
    rw [Stmt.placed] at hx
    cases hx
  | s :: rest, a, h, haround, x, hx, hfn => by
    rw [Stmt.AllAt] at h
    rw [Stmt.placed] at hx
    rw [Stmt.widths, ← Nat.add_assoc] at haround ⊢
    have hs := Stmt.jumpsTo around s a h.1
    have hrest := Stmt.jumpsTo_all around rest _ h.2
    rcases List.mem_append.mp hx with hx | hx
    · have hx' : a < x.region.start ∧ x.region.finish ≤ a + s.width ∧
          p.JumpsTo a (a + s.width) x.region.Together := by
        rcases List.mem_cons.mp hx with rfl | hx
        · exact ⟨Nat.lt_succ_self a, Nat.le_refl _, Stmt.together_self h.1 hfn inside⟩
        · obtain ⟨hstart, hfinish⟩ := Stmt.bounds_of_mem_inner inside s a x hx
          exact ⟨hstart, hfinish, Stmt.together_of_inner around inside s a h.1
            (haround.narrow (by omega) (by omega)) x hx hfn⟩
      obtain ⟨hstart, hfinish, hjumps⟩ := hx'
      exact hjumps.append (hrest.apart (.inr hfinish) haround (by omega) (by omega))
    · have hx' := Stmt.bounds_of_mem_placed inside rest _ x hx
      have hjumps := Stmt.together_of_placed around inside rest _ h.2
        (haround.narrow (by omega) (by omega)) x hx hfn
      exact (hs.apart (.inl (by omega)) haround (by omega) (by omega)).append hjumps

end

/-- A block that ends with a return has it as its last instruction. -/
theorem Stmt.ret_of_endsWithReturn : ∀ (ss : List Stmt) (a : Nat), Stmt.AllAt p same none ss a →
    endsWithReturn ss = true → p.PlainAt .ret (a + Stmt.widths ss - 1)
  | [s], a, h, hends => by
    obtain ⟨span, value, rfl⟩ := endsWithReturn_singleton.mp hends
    rw [Stmt.AllAt] at h
    rw [Stmt.widths, Stmt.widths, Nat.add_zero, Stmt.width, ← Nat.add_assoc, Nat.add_sub_cancel]
    cases value with
    | none =>
      rw [Stmt.At] at h
      exact h.1
    | some value =>
      rw [Stmt.At] at h
      exact h.1.2
  | s :: t :: rest, a, h, hends => by
    rw [endsWithReturn_cons_cons] at hends
    rw [Stmt.AllAt] at h
    have hrest := Stmt.ret_of_endsWithReturn (t :: rest) _ h.2 hends
    rwa [Stmt.widths, ← Nat.add_assoc]

/-- The last instruction of a function is a return. -/
theorem Program.ret_of_body {body : List Stmt} (h : Stmt.AllAt p same none body a)
    (hret : p.ReturnsBehind body a) :
    p.PlainAt .ret (a + Stmt.widths body + (if endsWithReturn body then 0 else 1) - 1) := by
  by_cases hends : endsWithReturn body = true
  · rw [if_pos hends]
    exact Stmt.ret_of_endsWithReturn body a h hends
  · rw [if_neg hends, Nat.add_sub_cancel]
    exact hret.resolve_left hends

end Regions

/-! ## The functions of a module -/

/-- The code of a function that a module defines: what lies between the jump over it and the target
of this jump. -/
def Module.FunctionRegion (m : Module) (r : Region) : Prop :=
  ∃ x ∈ m.placed, x.stmt.isFn = true ∧ r.start = x.offset + 1 ∧
    m.generate.GotoAt .jump r.finish x.offset

/-- A range of the code that is entered and left neither by a jump nor by going on behind its last
instruction. -/
structure Program.Closed (p : Program) (r : Region) : Prop where
  start_lt : r.start < r.finish
  finish_le : r.finish ≤ p.code.size
  /-- A jump stands in the range exactly if its target does. -/
  jump : ∀ {i : Nat} {x : Instruction}, p.code[i]? = some x → x.op.isJump = true →
    (i ∈ r ↔ x.arg1 ∈ r)
  /-- The last instruction is a return. -/
  last : p.PlainAt .ret (r.finish - 1)

namespace Module

variable {m : Module} {r : Region}

/-- The code of the statements of a module is in its place, whatever its literals are. -/
theorem allAt_generate (m : Module) : Stmt.AllAt m.generate (fun _ _ => True) none m.body 0 :=
  m.generate_at fun _ _ => ⟨trivial, fun _ _ _ => trivial⟩

/-- A function region belongs to a statement of the module that defines a function. -/
theorem FunctionRegion.exists_placed (h : m.FunctionRegion r) :
    ∃ span name params body inside a, ⟨.fnStmt span name params body, inside, a⟩ ∈ m.placed ∧
      r = Placed.region ⟨.fnStmt span name params body, inside, a⟩ := by
  obtain ⟨⟨s, inside, a⟩, hx, hfn, hstart, hskip⟩ := h
  cases s with
  | fnStmt span name params body =>
    refine ⟨span, name, params, body, inside, a, hx, ?_⟩
    obtain ⟨l, hat⟩ := Stmt.at_of_mem_placed none false m.body 0 m.allAt_generate _ hx
    rw [Stmt.At] at hat
    have htarget := hat.1.symm.trans hskip
    obtain ⟨start, finish⟩ := r
    simp only [Option.some.injEq, Instruction.mk.injEq, true_and, and_true] at htarget
    rw [Placed.region, Stmt.width, ← Nat.add_assoc, ← Nat.add_assoc, htarget]
    cases hstart
    rfl
  | _ => cases hfn

/-- Every function that a module defines has a region. -/
theorem functionRegion_of_placed {span : Span} {name : String} {params : List String}
    {body : List Stmt} {inside : Bool} {a : Nat}
    (h : ⟨.fnStmt span name params body, inside, a⟩ ∈ m.placed) :
    m.FunctionRegion (Placed.region ⟨.fnStmt span name params body, inside, a⟩) := by
  obtain ⟨l, hat⟩ := Stmt.at_of_mem_placed none false m.body 0 m.allAt_generate _ h
  rw [Stmt.At] at hat
  refine ⟨_, h, rfl, rfl, ?_⟩
  rw [Placed.region, Stmt.width, ← Nat.add_assoc, ← Nat.add_assoc]
  exact hat.1

/-- Before the region of a function stands the jump over it. -/
theorem FunctionRegion.skip (h : m.FunctionRegion r) :
    ∃ a, r.start = a + 1 ∧ m.generate.GotoAt .jump r.finish a := by
  obtain ⟨x, -, -, hstart, hskip⟩ := h
  exact ⟨x.offset, hstart, hskip⟩

/-- The region of a function is closed. -/
theorem FunctionRegion.closed (h : m.FunctionRegion r) : m.generate.Closed r := by
  obtain ⟨span, name, params, body, inside, a, hx, rfl⟩ := h.exists_placed
  have hat := m.allAt_generate
  have hbounds := Stmt.bounds_of_mem_placed false m.body 0 _ hx
  obtain ⟨l, hfn⟩ := Stmt.at_of_mem_placed none false m.body 0 hat _ hx
  rw [Stmt.At] at hfn
  obtain ⟨-, hbody, hret⟩ := hfn
  have hwidth : (Stmt.fnStmt span name params body).width =
      1 + Stmt.widths body + if endsWithReturn body then 0 else 1 := by rw [Stmt.width]
  refine ⟨?_, ?_, ?_, ?_⟩
  · show a + 1 < a + _
    rw [hwidth]
    by_cases hends : endsWithReturn body = true
    · have := Stmt.widths_pos_of_endsWithReturn hends
      omega
    · rw [if_neg hends]
      omega
  · rw [m.size_generate]
    omega
  · intro i y hcode hjump
    refine Stmt.together_of_placed none false m.body 0 hat nofun _ hx rfl i y (Nat.zero_le i) ?_
      hcode hjump
    rw [Nat.zero_add, ← m.size_generate]
    exact Program.lt_size_of_code hcode
  · -- The last instruction is a return, whether it was written or added.
    have hlast := Program.ret_of_body hbody hret
    rw [Placed.region, hwidth, ← Nat.add_assoc, ← Nat.add_assoc]
    exact hlast

/-- A statement that defines a function has a region. -/
theorem functionRegion_of_defines {x : Placed} (hx : x ∈ m.placed) {f : String}
    (hf : x.stmt.defines? = some f) : m.FunctionRegion x.region := by
  obtain ⟨s, inside, a⟩ := x
  cases s with
  | fnStmt span name params body => exact functionRegion_of_placed hx
  | _ => cases hf

/-- The function table leads behind the jumps over functions of these names. -/
theorem exists_placed_of_entry {name : String} {entry : FunctionEntry}
    (h : m.generate.function? name = some entry) :
    ∃ x ∈ m.placed, x.stmt.defines? = some name ∧ entry.offset = x.region.start := by
  have hbodies : Stmt.BodiesRight (fun d a => ∃ x ∈ m.placed, x.stmt.defines? = some d.name ∧
      a = x.region.start) m.placed :=
    fun _ _ _ _ _ _ hx => ⟨_, hx, rfl, rfl⟩
  have htable := m.generate_table hbodies name
  have hfind : m.generate.functions.find? name = some entry := h
  split at htable
  · rw [hfind] at htable
    cases htable
  · next d hlast =>
    obtain ⟨a, ha, hright⟩ := htable
    rw [hfind] at ha
    cases ha
    have hname := List.find?_some (p := fun d : Definition => d.name == name) hlast
    rwa [beq_iff_eq.mp hname] at hright

/-- The function table leads to the first instructions of regions. -/
theorem functionRegion_of_entry {name : String} {entry : FunctionEntry}
    (h : m.generate.function? name = some entry) :
    ∃ r, m.FunctionRegion r ∧ r.start = entry.offset := by
  obtain ⟨x, hx, hdefines, hstart⟩ := exists_placed_of_entry h
  exact ⟨x.region, functionRegion_of_defines hx hdefines, hstart.symm⟩

end Module

end Scriptlet
