import Scriptlet.Proofs.Correctness
import Scriptlet.Proofs.FloatWords

/-!
# What operands stand for

The instructions of a program name literals, variables and functions by their places in the pools.
Read through the pools of the finished program, the instructions of a module are those of its tree,
whatever else the pools hold.  Only zeros are not all kept apart: since the two zeros of floating
point agree, every zero of a module becomes the first one (`Module.generate_pools`).
-/

namespace Scriptlet

/-! ## Numbers that agree -/

namespace Binary64

open Float.Model

/-- What is equal as a number is the same, unless both are zeros. -/
theorem eq_of_unpacked_beq {x y : UnpackedFloat} (h : x.beq y = true) :
    x = y ∨ (∃ s, x = .zero s) ∧ ∃ s, y = .zero s := by
  rw [UnpackedFloat.beq, beq_iff_eq] at h
  cases x with
  | notANumber => cases h
  | infinity s =>
    cases y with
    | infinity s' =>
      have hsign : compare s s' = .eq := Option.some.inj h
      cases s <;> cases s' <;> simp_all
    | notANumber => cases h
    | zero s' => cases s <;> cases h
    | finite s' m e hm => cases s <;> cases h
  -- The two zeros are the only numbers that are equal and not the same.
  | zero s =>
    cases y with
    | zero s' => exact .inr ⟨⟨s, rfl⟩, ⟨s', rfl⟩⟩
    | notANumber => cases h
    | infinity s' => cases s' <;> cases h
    | finite s' m e hm => cases s' <;> cases h
  | finite s m e hm =>
    cases y with
    | finite s' m' e' hm' =>
      cases s <;> cases s' <;>
        simp_all [UnpackedFloat.compare, Ordering.then_eq_eq]
    | notANumber => cases s <;> cases h
    | infinity s' => cases s <;> cases s' <;> cases h
    | zero s' => cases s <;> cases h

/-- A value is given by what its word stands for. -/
theorem float_eq_of_unpack {x y : Float} (h : x.toModel.unpack = y.toModel.unpack) : x = y := by
  obtain ⟨⟨a, ha⟩⟩ := x
  obtain ⟨⟨b, hb⟩⟩ := y
  have hbits : a.toBitVec = b.toBitVec := by
    rw [← pack_unpack ha, ← pack_unpack hb]
    exact congrArg (UnpackedFloat.pack Format.binary64) h
  obtain rfl : a = b := UInt64.eq_of_toBitVec_eq hbits
  rfl

/-- The zeros are the values that are equal to zero. -/
theorem beq_zero_iff {x : Float} : (x == 0) = true ↔ ∃ s, x.toModel.unpack = .zero s := by
  have hzero : (0 : Float).toModel.unpack = .zero .positive := by rfl
  constructor
  · intro h
    rcases eq_of_unpacked_beq h with hx | ⟨hx, -⟩
    · exact ⟨_, hx.trans hzero⟩
    · exact hx
  · rintro ⟨s, hx⟩
    show x.toModel.unpack.beq (0 : Float).toModel.unpack = true
    rw [hx, hzero]
    rfl

end Binary64

namespace Literal

/-- Whether a literal is one of the zeros of floating point. -/
def isZero : Literal → Bool
  | float x => x == 0
  | _ => false

/-- Literals that agree are the same, unless both are zeros. -/
theorem eq_or_zeros_of_agrees {v w : Literal} (h : v.agrees w = true) :
    v = w ∨ v.isZero = true ∧ w.isZero = true := by
  cases v with
  | float x =>
    cases w with
    | float y =>
      rcases Binary64.eq_of_unpacked_beq h with hsame | ⟨hx, hy⟩
      · exact .inl (congrArg float (Binary64.float_eq_of_unpack hsame))
      · exact .inr ⟨Binary64.beq_zero_iff.mpr hx, Binary64.beq_zero_iff.mpr hy⟩
    | int n => cases h
    | str s => cases h
    | bool b => cases h
  | int n => exact .inl (eq_of_agrees h nofun)
  | str s => exact .inl (eq_of_agrees h nofun)
  | bool b => exact .inl (eq_of_agrees h nofun)

/-- All zeros agree. -/
theorem agrees_of_isZero {v w : Literal} (hv : v.isZero = true) (hw : w.isZero = true) :
    v.agrees w = true := by
  cases v with
  | float x =>
    cases w with
    | float y =>
      obtain ⟨s, hx⟩ := Binary64.beq_zero_iff.mp hv
      obtain ⟨s', hy⟩ := Binary64.beq_zero_iff.mp hw
      show x.toModel.unpack.beq y.toModel.unpack = true
      rw [hx, hy]
      rfl
    | int n => cases hw
    | str s => cases hw
    | bool b => cases hw
  | int n => cases hv
  | str s => cases hv
  | bool b => cases hv

end Literal

/-! ## Facts that last through generation -/

namespace Program

/-- A fact about a program and the literals that were put into it, which every step of generation
keeps. -/
structure Lasting (P : Program → List Literal → Prop) : Prop where
  literal : ∀ {p vs}, P p vs → ∀ v, P (p.addConstant v).2 (vs ++ [v])
  text : ∀ {p vs}, P p vs → ∀ s, P (p.addConstant (.str s)).2 vs
  name : ∀ {p vs}, P p vs → ∀ x, P (p.addVariable x).2 vs
  code : ∀ {p vs}, P p vs → ∀ i, P (p.push i) vs
  function : ∀ {p vs}, P p vs → ∀ name entry, P (p.addFunction name entry) vs

namespace Lasting

variable {P : Program → List Literal → Prop} {p : Program} {vs : List Literal}

mutual

/-- What every step of generation keeps holds behind the code of an expression, with the literals of
the expression put in. -/
theorem expr (hP : Lasting P) {p : Program} {vs : List Literal} (h : P p vs) :
    ∀ e : Expr, P (p.expr e) (vs ++ e.literals)
  | .literal _ value => by
    rw [Program.expr, Expr.literals]
    exact hP.code (hP.literal h value) _
  | .name _ _ x => by
    rw [Program.expr, Expr.literals, List.append_nil]
    exact hP.code (hP.name h x) _
  | .binary _ _ left right => by
    rw [Program.expr, Expr.literals, ← List.append_assoc]
    exact hP.code (hP.expr (hP.expr h left) right) _
  | .not _ operand => by
    rw [Program.expr, Expr.literals]
    exact hP.code (hP.expr h operand) _
  | .call _ _ f args => by
    rw [Program.expr, Expr.literals]
    exact hP.code (hP.text (hP.exprs h args) f) _

/-- The same for some expressions. -/
theorem exprs (hP : Lasting P) {p : Program} {vs : List Literal} (h : P p vs) :
    ∀ es : List Expr, P (p.exprs es) (vs ++ Expr.literalsIn es)
  | [] => by
    rw [Program.exprs, Expr.literalsIn, List.append_nil]
    exact h
  | e :: rest => by
    rw [Program.exprs, Expr.literalsIn, ← List.append_assoc]
    exact hP.exprs (hP.expr h e) rest

end

/-- A return at the end of a function brings no literal. -/
theorem ite_plain (hP : Lasting P) (h : P p vs) (b : Bool) (op : Opcode) :
    P (if b then p else p.plain op) vs := by
  cases b with
  | true => exact h
  | false => exact hP.code h _

mutual

/-- What every step of generation keeps holds behind the code of a statement. -/
theorem stmt (hP : Lasting P) {p : Program} {vs : List Literal} (h : P p vs)
    (around : Option LoopBounds) : ∀ s : Stmt, P (p.stmt around s) (vs ++ s.literals)
  | .letStmt _ name none => by
    rw [Program.stmt, Stmt.literals, List.append_nil]
    exact hP.name h name
  | .letStmt _ name (some value) => by
    rw [Program.stmt, Stmt.literals]
    exact hP.code (hP.name (hP.expr h value) name) _
  | .fnStmt _ name params body => by
    rw [Program.stmt, Stmt.literals]
    exact hP.ite_plain (hP.block (hP.function (hP.code h _) name _) none body) _ _
  | .returnStmt _ none => by
    rw [Program.stmt, Stmt.literals, List.append_nil]
    exact hP.code h _
  | .returnStmt _ (some value) => by
    rw [Program.stmt, Stmt.literals]
    exact hP.code (hP.expr h value) _
  | .breakStmt _ => by
    rw [Stmt.literals, List.append_nil]
    cases around with
    | none => rw [Program.stmt]; exact hP.code h _
    | some l => rw [Program.stmt]; exact hP.code h _
  | .continueStmt _ => by
    rw [Stmt.literals, List.append_nil]
    cases around with
    | none => rw [Program.stmt]; exact hP.code h _
    | some l => rw [Program.stmt]; exact hP.code h _
  | .ifStmt _ cond body => by
    rw [Program.stmt, Stmt.literals, ← List.append_assoc]
    exact hP.block (hP.code (hP.expr h cond) _) around body
  | .ifElseStmt _ cond body other => by
    rw [Program.stmt, Stmt.literals, ← List.append_assoc, ← List.append_assoc]
    exact hP.block (hP.code (hP.block (hP.code (hP.expr h cond) _) around body) _) around other
  | .whileStmt _ cond body => by
    rw [Program.stmt, Stmt.literals, ← List.append_assoc]
    exact hP.code (hP.block (hP.code (hP.expr h cond) _) _ body) _
  | .exprStmt _ value => by
    rw [Program.stmt, Stmt.literals]
    exact hP.code (hP.expr h value) _

/-- What every step of generation keeps holds behind the code of a block. -/
theorem block (hP : Lasting P) {p : Program} {vs : List Literal} (h : P p vs)
    (around : Option LoopBounds) :
    ∀ ss : List Stmt, P (p.block around ss) (vs ++ Stmt.literalsIn ss)
  | [] => by
    rw [Program.block, Stmt.literalsIn, List.append_nil]
    exact h
  | s :: rest => by
    rw [Program.block, Stmt.literalsIn, ← List.append_assoc]
    exact hP.block (hP.stmt h around s) around rest

end

/-- What lasts and holds of the empty program holds of the program of a module. -/
theorem generate (hP : Lasting P) (h : P Program.empty []) (m : Module) :
    P m.generate (Stmt.literalsIn m.body) :=
  hP.block h none m.body

end Lasting

/-- A variable pool in which no name stands twice keeps that. -/
theorem nodup_addVariable {p : Program} (h : p.variableNames.toList.Nodup) (name : String) :
    (p.addVariable name).2.variableNames.toList.Nodup := by
  unfold addVariable
  split
  · exact h
  · next hnone =>
    rw [Array.findIdx?_eq_none_iff] at hnone
    rw [Array.toList_push]
    refine List.nodup_append.mpr ⟨h, List.nodup_singleton name, ?_⟩
    intro x hx y hy
    rw [List.mem_singleton.mp hy]
    simpa using hnone x (Array.mem_def.mpr hx)

/-- A variable name is only added if it is not there, so no name is twice in the pool. -/
theorem lasting_nodup : Lasting fun p _ => p.variableNames.toList.Nodup where
  literal h v := by
    unfold addConstant
    split <;> exact h
  text h s := by
    unfold addConstant
    split <;> exact h
  name h x := nodup_addVariable h x
  code h _ := h
  function h _ _ := h

/-- The only zero of the constant pool is the first of the zeros that were put in. -/
def FirstZero (p : Program) (vs : List Literal) : Prop :=
  ∀ v, v ∈ p.constants ∧ v.isZero = true ↔ vs.find? Literal.isZero = some v

/-- A zero is added only if there is none yet, and all others are found under the one that is
there. -/
theorem firstZero_addConstant {p : Program} {vs : List Literal} (h : p.FirstZero vs)
    (value : Literal) : (p.addConstant value).2.FirstZero (vs ++ [value]) := by
  intro v
  rw [List.find?_append, List.find?_singleton]
  unfold addConstant
  split
  · next k hk =>
    -- The literal agrees with one in the pool, so if it is a zero, it is not the first.
    obtain ⟨hlt, hagrees, -⟩ := Array.findIdx?_eq_some_iff_getElem.mp hk
    rw [h v]
    cases hfirst : vs.find? Literal.isZero with
    | some w => rfl
    | none =>
      have hzero : value.isZero = false := by
        by_contra hne
        have hvalue : value.isZero = true := by simpa using hne
        have hfound : (p.constants[k]).isZero = true := by
          rcases Literal.eq_or_zeros_of_agrees hagrees with heq | ⟨-, hzero⟩
          · rwa [← heq]
          · exact hzero
        have hmem := (h _).mp ⟨Array.getElem_mem hlt, hfound⟩
        rw [hfirst] at hmem
        cases hmem
      rw [hzero]
      simp
  · next hnone =>
    rw [Array.findIdx?_eq_none_iff] at hnone
    show v ∈ p.constants.push value ∧ _ ↔ _
    rw [Array.mem_push, or_and_right, h v]
    cases hfirst : vs.find? Literal.isZero with
    | some w =>
      -- A zero would have been found to agree with the one in the pool.
      obtain ⟨hmem, hw⟩ := (h w).mpr hfirst
      have hzero : value.isZero = false := by
        by_contra hne
        have hagrees := Literal.agrees_of_isZero (by simpa using hne) hw
        rw [hnone w hmem] at hagrees
        cases hagrees
      simp only [Option.some_or, or_iff_left_iff_imp, and_imp]
      rintro rfl hv
      rw [hzero] at hv
      cases hv
    | none =>
      simp only [Option.none_or, reduceCtorEq, false_or, Option.ite_none_right_eq_some,
        Option.some.injEq]
      constructor
      · rintro ⟨rfl, hv⟩
        exact ⟨hv, rfl⟩
      · rintro ⟨hv, rfl⟩
        exact ⟨rfl, hv⟩

/-- A text changes nothing about the zeros of the pool. -/
theorem firstZero_addText {p : Program} {vs : List Literal} (h : p.FirstZero vs) (s : String) :
    (p.addConstant (.str s)).2.FirstZero vs := by
  have hadded := firstZero_addConstant h (.str s)
  intro v
  rw [hadded v, List.find?_append]
  simp [Literal.isZero]

/-- Every step of generation keeps the first zero as the only one. -/
theorem lasting_firstZero : Lasting FirstZero where
  literal := firstZero_addConstant
  text := firstZero_addText
  name h x := by
    unfold addVariable
    split <;> exact h
  code h _ := h
  function h _ _ := h

end Program

/-! ## Instructions read through the pools -/

/-- What an instruction does with the pools of its program. -/
inductive Operand where
  | literal (value : Literal)
  | load (name : String)
  | store (name : String)
  | call (name : String) (args : Nat)
  /-- The instruction does not use the pools. -/
  | unused
  /-- The place does not exist, or a call finds something else than a name there. -/
  | missing
  deriving DecidableEq

/-- The same with another literal. -/
def Operand.withLiteral (f : Literal → Literal) : Operand → Operand
  | literal value => literal (f value)
  | o => o

/-- What an instruction of a program does with the pools. -/
def Program.operand (p : Program) (i : Instruction) : Operand :=
  match i.op with
  | .loadConst => (p.constants[i.arg1]?).elim .missing .literal
  | .loadVar => (p.variableNames[i.arg1]?).elim .missing .load
  | .storeVar => (p.variableNames[i.arg1]?).elim .missing .store
  | .call =>
    match p.constants[i.arg1]? with
    | some (.str name) => .call name i.arg2
    | _ => .missing
  | _ => .unused

mutual

/-- What the instructions of an expression are for, one after the other. -/
def Expr.operands : Expr → List Operand
  | .literal _ value => [.literal value]
  | .name _ _ x => [.load x]
  | .binary _ _ left right => left.operands ++ right.operands ++ [.unused]
  | .not _ operand => operand.operands ++ [.unused]
  | .call _ _ f args => Expr.operandsIn args ++ [.call f args.length]

/-- What the instructions of some expressions are for. -/
def Expr.operandsIn : List Expr → List Operand
  | [] => []
  | e :: rest => e.operands ++ Expr.operandsIn rest

end

mutual

/-- What the instructions of a statement are for, one after the other. -/
def Stmt.operands : Stmt → List Operand
  | .letStmt _ _ none => []
  | .letStmt _ name (some value) => value.operands ++ [.store name]
  | .fnStmt _ _ _ body =>
    .unused :: Stmt.operandsIn body ++ (if endsWithReturn body then [] else [.unused])
  | .returnStmt _ none => [.unused]
  | .returnStmt _ (some value) => value.operands ++ [.unused]
  | .breakStmt _ | .continueStmt _ => [.unused]
  | .ifStmt _ cond body => cond.operands ++ .unused :: Stmt.operandsIn body
  | .ifElseStmt _ cond body other =>
    cond.operands ++ .unused :: Stmt.operandsIn body ++ .unused :: Stmt.operandsIn other
  | .whileStmt _ cond body => cond.operands ++ .unused :: Stmt.operandsIn body ++ [.unused]
  | .exprStmt _ value => value.operands ++ [.unused]

/-- What the instructions of some statements are for. -/
def Stmt.operandsIn : List Stmt → List Operand
  | [] => []
  | s :: rest => s.operands ++ Stmt.operandsIn rest

end

/-! ### As many as instructions -/

mutual

/-- There is one operand for every instruction of an expression. -/
theorem Expr.length_operands : ∀ e : Expr, e.operands.length = e.width
  | .literal _ _ | .name _ _ _ => by rw [operands, width]; rfl
  | .binary _ _ left right => by
    rw [operands, width, List.length_append, List.length_append, left.length_operands,
      right.length_operands]
    rfl
  | .not _ operand => by
    rw [operands, width, List.length_append, operand.length_operands]
    rfl
  | .call _ _ _ args => by
    rw [operands, width, List.length_append, Expr.length_operandsIn args]
    rfl

/-- There is one operand for every instruction of some expressions. -/
theorem Expr.length_operandsIn : ∀ es : List Expr, (Expr.operandsIn es).length = Expr.widths es
  | [] => by rw [operandsIn, widths]; rfl
  | e :: rest => by
    rw [operandsIn, widths, List.length_append, e.length_operands, Expr.length_operandsIn rest]

end

mutual

/-- There is one operand for every instruction of a statement. -/
theorem Stmt.length_operands : ∀ s : Stmt, s.operands.length = s.width
  | .letStmt _ _ none => by rw [operands, width]; rfl
  | .letStmt _ _ (some value) => by simp [operands, width, value.length_operands]
  | .fnStmt _ _ _ body => by
    rw [operands, width, List.length_append, List.length_cons, Stmt.length_operandsIn body]
    split <;> simp [Nat.add_comm]
  | .returnStmt _ none => by rw [operands, width]; rfl
  | .returnStmt _ (some value) => by simp [operands, width, Expr.width?, value.length_operands]
  | .breakStmt _ | .continueStmt _ => by rw [operands, width]; rfl
  | .ifStmt _ cond body => by
    simp [operands, width, cond.length_operands, Stmt.length_operandsIn body, Nat.add_assoc,
      Nat.add_comm 1]
  | .ifElseStmt _ cond body other => by
    simp [operands, width, cond.length_operands, Stmt.length_operandsIn body,
      Stmt.length_operandsIn other]
    omega
  | .whileStmt _ cond body => by
    simp [operands, width, cond.length_operands, Stmt.length_operandsIn body]
    omega
  | .exprStmt _ value => by simp [operands, width, value.length_operands]

/-- There is one operand for every instruction of a block. -/
theorem Stmt.length_operandsIn : ∀ ss : List Stmt, (Stmt.operandsIn ss).length = Stmt.widths ss
  | [] => by rw [operandsIn, widths]; rfl
  | s :: rest => by
    rw [operandsIn, widths, List.length_append, s.length_operands, Stmt.length_operandsIn rest]

end

/-! ### Code in place reads as its tree -/

namespace Program

variable {q : Program} {f : Literal → Literal} {a : Nat} {o : Operand} {os os' : List Operand}

/-- From an offset on, the instructions of a program read as given, with other literals. -/
def ReadsAt (q : Program) (f : Literal → Literal) (os : List Operand) (a : Nat) : Prop :=
  ∀ i o, os[i]? = some o → ∃ x, q.code[a + i]? = some x ∧ q.operand x = o.withLiteral f

theorem readsAt_nil : q.ReadsAt f [] a := nofun

/-- One instruction reads as it does. -/
theorem readsAt_singleton {x : Instruction} (hcode : q.code[a]? = some x)
    (ho : q.operand x = o.withLiteral f) : q.ReadsAt f [o] a := by
  intro i o' hi
  rw [List.getElem?_singleton] at hi
  split at hi
  · next hzero =>
    cases hi
    exact ⟨x, by rwa [hzero], ho⟩
  · cases hi

/-- Instructions that stand behind one another read as their operands behind one another. -/
theorem ReadsAt.append (h : q.ReadsAt f os a) (h' : q.ReadsAt f os' (a + os.length)) :
    q.ReadsAt f (os ++ os') a := by
  intro i o hi
  rw [List.getElem?_append] at hi
  split at hi
  · exact h i o hi
  · obtain ⟨x, hcode, ho⟩ := h' _ o hi
    exact ⟨x, by rw [← hcode]; congr 1; omega, ho⟩

/-- A literal in the pool is the one that another is kept as. -/
def KeptAs (q : Program) (f : Literal → Literal) (value found : Literal) : Prop :=
  found ∈ q.constants → found = f value

/-- An instruction that loads a literal reads as the literal that it is kept as. -/
theorem LoadsAt.readsAt {value : Literal} (h : q.LoadsAt (q.KeptAs f) value a) :
    q.ReadsAt f [.literal value] a := by
  obtain ⟨k, found, hcode, hfound, hkept⟩ := h
  refine readsAt_singleton hcode ?_
  rw [operand, hfound, hkept (Array.mem_of_getElem? hfound)]
  rfl

/-- An instruction that loads a variable reads as the name of the variable. -/
theorem VariableAt.readsAt_load {x : String} (h : q.VariableAt .loadVar x a) :
    q.ReadsAt f [.load x] a := by
  obtain ⟨k, hcode, hname⟩ := h
  refine readsAt_singleton hcode ?_
  rw [operand, hname]
  rfl

/-- An instruction that stores to a variable reads as the name of the variable. -/
theorem VariableAt.readsAt_store {x : String} (h : q.VariableAt .storeVar x a) :
    q.ReadsAt f [.store x] a := by
  obtain ⟨k, hcode, hname⟩ := h
  refine readsAt_singleton hcode ?_
  rw [operand, hname]
  rfl

/-- A call reads as the name of the function and the number of its arguments. -/
theorem CallAt.readsAt {name : String} {args : Nat} (h : q.CallAt name args a) :
    q.ReadsAt f [.call name args] a := by
  obtain ⟨k, hcode, hname⟩ := h
  refine readsAt_singleton hcode ?_
  rw [operand, hname]
  rfl

end Program

section

variable {q : Program} {f : Literal → Literal}

mutual

/-- The code of an expression reads as the expression. -/
theorem Expr.At.readsAt : ∀ {e : Expr} {a : Nat}, e.At q (q.KeptAs f) a →
    q.ReadsAt f e.operands a
  | .literal _ value, a, h => by
    rw [Expr.At] at h
    rw [Expr.operands]
    exact h.readsAt
  | .name _ _ x, a, h => by
    rw [Expr.At] at h
    rw [Expr.operands]
    exact h.readsAt_load
  | .binary _ op left right, a, h => by
    rw [Expr.At] at h
    obtain ⟨hleft, hright, hplain⟩ := h
    rw [Expr.operands, List.append_assoc]
    refine (Expr.At.readsAt hleft).append ?_
    rw [left.length_operands]
    refine (Expr.At.readsAt hright).append ?_
    rw [right.length_operands]
    exact Program.readsAt_singleton hplain (by cases op <;> rfl)
  | .not _ operand, a, h => by
    rw [Expr.At] at h
    rw [Expr.operands]
    refine (Expr.At.readsAt h.1).append ?_
    rw [operand.length_operands]
    exact Program.readsAt_singleton h.2 rfl
  | .call _ _ _ args, a, h => by
    rw [Expr.At] at h
    rw [Expr.operands]
    refine (Expr.AllAt.readsAt h.1).append ?_
    rw [Expr.length_operandsIn args]
    exact h.2.readsAt

/-- The code of some expressions reads as they do. -/
theorem Expr.AllAt.readsAt : ∀ {es : List Expr} {a : Nat}, Expr.AllAt q (q.KeptAs f) es a →
    q.ReadsAt f (Expr.operandsIn es) a
  | [], a, _ => by
    rw [Expr.operandsIn]
    exact Program.readsAt_nil
  | e :: rest, a, h => by
    rw [Expr.AllAt] at h
    rw [Expr.operandsIn]
    refine (Expr.At.readsAt h.1).append ?_
    rw [e.length_operands]
    exact Expr.AllAt.readsAt h.2

end

/-- An expression and one more instruction behind it. -/
theorem Expr.At.readsAt_concat {e : Expr} {a : Nat} {o : Operand} (h : e.At q (q.KeptAs f) a)
    (ho : q.ReadsAt f [o] (a + e.width)) : q.ReadsAt f (e.operands ++ [o]) a := by
  refine h.readsAt.append ?_
  rwa [e.length_operands]

/-- A condition, the jump behind it and a block. -/
theorem Expr.At.readsAt_guard {cond : Expr} {a target : Nat} {os : List Operand}
    (h : cond.At q (q.KeptAs f) a) (hjump : q.GotoAt .jumpIfFalse target (a + cond.width))
    (hbody : q.ReadsAt f os (a + cond.width + 1)) :
    q.ReadsAt f (cond.operands ++ .unused :: os) a := by
  refine h.readsAt.append ?_
  rw [cond.length_operands]
  exact (Program.readsAt_singleton hjump rfl).append hbody

/-- A condition with its jump and the block behind it are as long as their code. -/
theorem length_guard (cond : Expr) (body : List Stmt) :
    (cond.operands ++ .unused :: Stmt.operandsIn body).length =
      cond.width + 1 + Stmt.widths body := by
  rw [List.length_append, List.length_cons, cond.length_operands, Stmt.length_operandsIn body]
  omega

mutual

/-- The code of a statement reads as the statement. -/
theorem Stmt.At.readsAt : ∀ {s : Stmt} {around : Option Program.LoopBounds} {a : Nat},
    s.At q (q.KeptAs f) around a → q.ReadsAt f s.operands a
  | .letStmt _ _ none, _, a, _ => by
    rw [Stmt.operands]
    exact Program.readsAt_nil
  | .letStmt _ _ (some value), _, a, h => by
    rw [Stmt.At] at h
    rw [Stmt.operands]
    exact h.1.readsAt_concat h.2.readsAt_store
  | .fnStmt _ _ _ body, _, a, h => by
    rw [Stmt.At] at h
    obtain ⟨hjump, hbody, hreturns⟩ := h
    rw [Stmt.operands]
    refine ((Program.readsAt_singleton hjump rfl).append (Stmt.AllAt.readsAt hbody)).append ?_
    -- A return is added only if the body does not end with one.
    rcases hreturns with hends | hret
    · rw [if_pos hends]
      exact Program.readsAt_nil
    · split
      · exact Program.readsAt_nil
      · rw [List.length_append, List.length_singleton, Stmt.length_operandsIn body,
          ← Nat.add_assoc]
        exact Program.readsAt_singleton hret rfl
  | .returnStmt _ none, _, a, h => by
    rw [Stmt.At] at h
    rw [Stmt.operands]
    exact Program.readsAt_singleton h rfl
  | .returnStmt _ (some value), _, a, h => by
    rw [Stmt.At] at h
    rw [Stmt.operands]
    exact h.1.readsAt_concat (Program.readsAt_singleton h.2 rfl)
  | .breakStmt _, around, a, h | .continueStmt _, around, a, h => by
    rw [Stmt.operands]
    cases around with
    | none => rw [Stmt.At] at h; exact Program.readsAt_singleton h rfl
    | some l => rw [Stmt.At] at h; exact Program.readsAt_singleton h rfl
  | .ifStmt _ cond body, _, a, h => by
    rw [Stmt.At] at h
    rw [Stmt.operands]
    exact h.1.readsAt_guard h.2.1 (Stmt.AllAt.readsAt h.2.2)
  | .ifElseStmt _ cond body other, _, a, h => by
    rw [Stmt.At] at h
    obtain ⟨hcond, htest, hbody, hjump, hother⟩ := h
    rw [Stmt.operands]
    refine (hcond.readsAt_guard htest (Stmt.AllAt.readsAt hbody)).append ?_
    rw [length_guard, ← Nat.add_assoc, ← Nat.add_assoc]
    exact (Program.readsAt_singleton hjump rfl).append (Stmt.AllAt.readsAt hother)
  | .whileStmt _ cond body, _, a, h => by
    rw [Stmt.At] at h
    obtain ⟨hcond, htest, hbody, hback⟩ := h
    rw [Stmt.operands]
    refine (hcond.readsAt_guard htest (Stmt.AllAt.readsAt hbody)).append ?_
    rw [length_guard, ← Nat.add_assoc, ← Nat.add_assoc]
    exact Program.readsAt_singleton hback rfl
  | .exprStmt _ value, _, a, h => by
    rw [Stmt.At] at h
    rw [Stmt.operands]
    exact h.1.readsAt_concat (Program.readsAt_singleton h.2 rfl)

/-- The code of a block reads as the block does. -/
theorem Stmt.AllAt.readsAt : ∀ {ss : List Stmt} {around : Option Program.LoopBounds} {a : Nat},
    Stmt.AllAt q (q.KeptAs f) around ss a → q.ReadsAt f (Stmt.operandsIn ss) a
  | [], _, a, _ => by
    rw [Stmt.operandsIn]
    exact Program.readsAt_nil
  | s :: rest, _, a, h => by
    rw [Stmt.AllAt] at h
    rw [Stmt.operandsIn]
    refine (Stmt.At.readsAt h.1).append ?_
    rw [s.length_operands]
    exact Stmt.AllAt.readsAt h.2

end

end

/-! ## Programs of modules -/

/-- The text that a literal is printed as: texts are printed without quotes. -/
def Literal.text : Literal → String
  | str s => s
  | v => v.shown

/-- A literal is printed as the value that it loads. -/
theorem Value.shown_ofLiteral (v : Literal) : (ofLiteral v).shown = v.text := by
  cases v <;> rfl

/-- A turn at an instruction that loads a literal puts its value on the stack. -/
theorem Program.turn_literal {p : Program} {settings : Settings} {s : State} {x : Instruction}
    {v : Literal} (hcode : p.code[s.ip]? = some x) (hx : p.operand x = .literal v)
    (hlimit : limitReached? settings s = none) :
    p.turn settings s =
      .next (({ s with ip := s.ip + 1, steps := s.steps + 1 } : State).push (.ofLiteral v)) := by
  obtain ⟨op, k, n⟩ := x
  have hload : op = .loadConst ∧ p.constants[k]? = some v := by
    cases op <;> simp only [operand] at hx
    case loadConst =>
      cases hk : p.constants[k]? with
      | none => rw [hk] at hx; cases hx
      | some w => rw [hk] at hx; cases hx; exact ⟨rfl, rfl⟩
    case loadVar => cases hk : p.variableNames[k]? <;> rw [hk] at hx <;> cases hx
    case storeVar => cases hk : p.variableNames[k]? <;> rw [hk] at hx <;> cases hx
    case call => split at hx <;> cases hx
    all_goals cases hx
  obtain ⟨rfl, hconstant⟩ := hload
  simp only [turn, hcode, hlimit, execute, withConstant, hconstant]

/-- The pools serve the program of a module: every instruction finds in them what the tree has at
its place, with the literals kept as `f` says. -/
structure Module.Pooled (m : Module) (f : Literal → Literal) : Prop where
  /-- Read through the pools, the instructions are those of the tree, one after the other. -/
  operands : m.generate.code.toList.map m.generate.operand =
    (Stmt.operandsIn m.body).map (Operand.withLiteral f)
  /-- The machine loads a literal where the tree has one, and prints it as the literal reads. -/
  loads : ∀ settings s v, (Stmt.operandsIn m.body)[s.ip]? = some (.literal v) →
    Program.limitReached? settings s = none → ∃ value, value.shown = (f v).text ∧
      value = .ofLiteral (f v) ∧ m.generate.turn settings s =
        .next (({ s with ip := s.ip + 1, steps := s.steps + 1 } : State).push value)
  /-- No name has two places. -/
  names : m.generate.variableNames.toList.Nodup

/-- What becomes of a literal of a module in the pool: a zero becomes the first zero of the module,
and all others stay as they are. -/
def Module.shared (m : Module) (v : Literal) : Literal :=
  if v.isZero then ((Stmt.literalsIn m.body).find? Literal.isZero).getD v else v

/-- A literal finds in the pool what it is shared as. -/
theorem Module.keeps_shared (m : Module) (v : Literal) :
    m.generate.Keeps (m.generate.KeptAs m.shared) v := by
  have hfirst : m.generate.FirstZero (Stmt.literalsIn m.body) :=
    Program.lasting_firstZero.generate (fun v => by simp [Program.empty]) m
  have hzero : ∀ w, w ∈ m.generate.constants → w.isZero = true → v.isZero = true →
      w = m.shared v := by
    intro w hmem hw hv
    rw [shared, if_pos hv, (hfirst w).mp ⟨hmem, hw⟩]
    rfl
  have hself : v ∈ m.generate.constants → v = m.shared v := by
    intro hmem
    by_cases hv : v.isZero = true
    · exact hzero v hmem hv hv
    · rw [shared, if_neg hv]
  refine ⟨hself, fun found hfound hagrees hmem => ?_⟩
  rcases Literal.eq_or_zeros_of_agrees hagrees with rfl | ⟨hv, hw⟩
  · exact hself hmem
  · exact hzero found hmem hw hv

/-- The constant pool and the variable pool are faithful, but for the sign of zeros.  Read through
the pools of the finished program, the instructions of a module load the literals, load and store
the variables and call the functions that the tree has at their places, in the order of the tree.
A literal is loaded with its own bits unless it is a zero: all zeros of a module are loaded as the
first of them. -/
theorem Module.generate_pools (m : Module) : m.Pooled m.shared := by
  have hreads : m.generate.ReadsAt m.shared (Stmt.operandsIn m.body) 0 :=
    (m.generate_at fun v _ => m.keeps_shared v).readsAt
  refine ⟨?_, fun settings s v hv hlimit => ?_, Program.lasting_nodup.generate List.nodup_nil m⟩
  · refine List.ext_getElem? fun i => ?_
    rw [List.getElem?_map, List.getElem?_map, Array.getElem?_toList]
    cases ho : (Stmt.operandsIn m.body)[i]? with
    | some o =>
      obtain ⟨x, hcode, hx⟩ := hreads i o ho
      rw [Nat.zero_add] at hcode
      rw [hcode, Option.map_some, Option.map_some, hx]
    | none =>
      rw [List.getElem?_eq_none_iff, Stmt.length_operandsIn, ← m.size_generate] at ho
      rw [Array.getElem?_eq_none ho]
      rfl
  · obtain ⟨x, hcode, hx⟩ := hreads s.ip _ hv
    rw [Nat.zero_add] at hcode
    exact ⟨_, Value.shown_ofLiteral _, rfl, Program.turn_literal hcode hx hlimit⟩

/-- Both zeros, one behind the other. -/
def Module.zeros : Module where
  body := [
    .letStmt .zero "a" (some (.literal .zero (.float 0.0))),
    .letStmt .zero "b" (some (.literal .zero (.float (-0.0))))]
  nodeCount := 0

/-- The second zero of `Module.zeros` is not kept as it is. -/
theorem Module.zeros_not_pooled : ¬ Module.zeros.Pooled id := fun h =>
  absurd h.operands (by decide +kernel)

end Scriptlet
