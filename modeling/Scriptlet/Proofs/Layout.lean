import Scriptlet.Program.Generate
import Scriptlet.Proofs.Evaluation

/-!
# Where the code of a tree stands

`Expr.At`, `Stmt.At` and `Stmt.AllAt` say what a program holds from an offset on if the code of a
tree stands there, with the operands read through the pools.  They do not mention how the program
was put together.  `Stmt.placed` lists the statements inside of statements with their offsets.
-/

namespace Scriptlet

/-! ## The relation between code and trees -/

namespace Program

/-- The instruction at an offset loads a literal that is `same` as a given one. -/
def LoadsAt (p : Program) (same : Literal → Literal → Prop) (value : Literal) (a : Nat) : Prop :=
  ∃ k found, p.code[a]? = some ⟨.loadConst, k, 0⟩ ∧ p.constants[k]? = some found ∧ same value found

/-- The instruction at an offset applies an operation to the variable of a given name. -/
def VariableAt (p : Program) (op : Opcode) (name : String) (a : Nat) : Prop :=
  ∃ k, p.code[a]? = some ⟨op, k, 0⟩ ∧ p.variableNames[k]? = some name

/-- The instruction at an offset calls a function of a given name. -/
def CallAt (p : Program) (name : String) (args : Nat) (a : Nat) : Prop :=
  ∃ k, p.code[a]? = some ⟨.call, k, args⟩ ∧ p.constants[k]? = some (.str name)

/-- The instruction at an offset is an operation without operands. -/
def PlainAt (p : Program) (op : Opcode) (a : Nat) : Prop := p.code[a]? = some ⟨op, 0, 0⟩

/-- The instruction at an offset goes to a target. -/
def GotoAt (p : Program) (op : Opcode) (target a : Nat) : Prop := p.code[a]? = some ⟨op, target, 0⟩

end Program

section Layout

variable (p : Program) (same : Literal → Literal → Prop)

mutual

/-- The code of an expression stands at an offset. -/
def Expr.At : Expr → Nat → Prop
  | .literal _ value, a => p.LoadsAt same value a
  | .name _ _ x, a => p.VariableAt .loadVar x a
  | .binary _ op left right, a =>
    left.At a ∧ right.At (a + left.width) ∧ p.PlainAt op.opcode (a + left.width + right.width)
  | .not _ operand, a => operand.At a ∧ p.PlainAt .not (a + operand.width)
  | .call _ _ f args, a => Expr.AllAt args a ∧ p.CallAt f args.length (a + Expr.widths args)

/-- The code of some expressions stands at an offset. -/
def Expr.AllAt : List Expr → Nat → Prop
  | [], _ => True
  | e :: rest, a => e.At a ∧ Expr.AllAt rest (a + e.width)

end

/-- Behind the statements of a function at an offset the function returns, unless the last of them
does so itself. -/
def Program.ReturnsBehind (body : List Stmt) (a : Nat) : Prop :=
  endsWithReturn body = true ∨ p.PlainAt .ret (a + Stmt.widths body)

mutual

/-- The code of a statement inside a given loop, if any, stands at an offset. -/
def Stmt.At (around : Option Program.LoopBounds) : Stmt → Nat → Prop
  | .letStmt _ _ none, _ => True
  | .letStmt _ name (some value), a =>
    value.At p same a ∧ p.VariableAt .storeVar name (a + value.width)
  | .fnStmt _ _ _ body, a =>
    p.GotoAt .jump (a + 1 + Stmt.widths body + (if endsWithReturn body then 0 else 1)) a ∧
      Stmt.AllAt none body (a + 1) ∧ p.ReturnsBehind body (a + 1)
  | .returnStmt _ none, a => p.PlainAt .ret a
  | .returnStmt _ (some value), a => value.At p same a ∧ p.PlainAt .ret (a + value.width)
  | .breakStmt _, a =>
    match around with
    | some l => p.GotoAt .jump l.exit a
    | none => p.PlainAt .nop a
  | .continueStmt _, a =>
    match around with
    | some l => p.GotoAt .jump l.start a
    | none => p.PlainAt .nop a
  | .ifStmt _ cond body, a =>
    cond.At p same a ∧
      p.GotoAt .jumpIfFalse (a + cond.width + 1 + Stmt.widths body) (a + cond.width) ∧
      Stmt.AllAt around body (a + cond.width + 1)
  | .ifElseStmt _ cond body other, a =>
    let otherStart := a + cond.width + 1 + Stmt.widths body + 1
    cond.At p same a ∧
      p.GotoAt .jumpIfFalse otherStart (a + cond.width) ∧
      Stmt.AllAt around body (a + cond.width + 1) ∧
      p.GotoAt .jump (otherStart + Stmt.widths other) (a + cond.width + 1 + Stmt.widths body) ∧
      Stmt.AllAt around other otherStart
  | .whileStmt _ cond body, a =>
    let exit := a + cond.width + 1 + Stmt.widths body + 1
    cond.At p same a ∧
      p.GotoAt .jumpIfFalse exit (a + cond.width) ∧
      Stmt.AllAt (some ⟨a, exit⟩) body (a + cond.width + 1) ∧
      p.GotoAt .jump a (a + cond.width + 1 + Stmt.widths body)
  | .exprStmt _ value, a => value.At p same a ∧ p.PlainAt .pop (a + value.width)

/-- The code of some statements stands at an offset. -/
def Stmt.AllAt (around : Option Program.LoopBounds) : List Stmt → Nat → Prop
  | [], _ => True
  | s :: rest, a => s.At around a ∧ Stmt.AllAt around rest (a + s.width)

end

/-- The code of a function stands at an offset, which lies in the program or at its end. -/
def Definition.At (d : Definition) (a : Nat) : Prop :=
  a ≤ p.code.size ∧ Stmt.AllAt p same none d.body a ∧ p.ReturnsBehind d.body a

end Layout

/-- A function table gives every name the last definition of that name, at an offset that is right
for it, and knows no other names. -/
def TableOf (right : Definition → Nat → Prop) (table : SortedMap String FunctionEntry)
    (defs : List Definition) : Prop :=
  ∀ name,
    match Definition.last? defs name with
    | none => table.find? name = none
    | some d => ∃ a, table.find? name = some ⟨a, d.params⟩ ∧ right d a

/-! ## Statements inside of statements -/

/-- A statement of a module, whether it belongs to a function, and the offset of its code. -/
structure Placed where
  stmt : Stmt
  inside : Bool
  offset : Nat

mutual

/-- The statements inside a statement at an offset. -/
def Stmt.inner (inside : Bool) : Stmt → Nat → List Placed
  | .fnStmt _ _ _ body, a => Stmt.placed true body (a + 1)
  | .ifStmt _ cond body, a => Stmt.placed inside body (a + cond.width + 1)
  | .ifElseStmt _ cond body other, a =>
    Stmt.placed inside body (a + cond.width + 1) ++
      Stmt.placed inside other (a + cond.width + 1 + Stmt.widths body + 1)
  | .whileStmt _ cond body, a => Stmt.placed inside body (a + cond.width + 1)
  | .letStmt _ _ _, _ | .returnStmt _ _, _ | .breakStmt _, _ | .continueStmt _, _ => []
  | .exprStmt _ _, _ => []

/-- Statements at an offset and all statements inside them. -/
def Stmt.placed (inside : Bool) : List Stmt → Nat → List Placed
  | [], _ => []
  | s :: rest, a => ⟨s, inside, a⟩ :: s.inner inside a ++ Stmt.placed inside rest (a + s.width)

end

/-- The statements of a module, also those inside of others. -/
def Module.placed (m : Module) : List Placed := Stmt.placed false m.body 0

section Inner

variable {p : Program} {same : Literal → Literal → Prop}

mutual

/-- If the code of a statement is in place, so is that of every statement inside. -/
theorem Stmt.at_of_mem_inner (around : Option Program.LoopBounds) (inside : Bool) :
    ∀ (s : Stmt) (a : Nat), s.At p same around a →
      ∀ x ∈ s.inner inside a, ∃ l, x.stmt.At p same l x.offset
  | .fnStmt _ _ _ body, a, h, x, hx => by
    rw [Stmt.At] at h
    rw [Stmt.inner] at hx
    exact Stmt.at_of_mem_placed none true body _ h.2.1 x hx
  | .ifStmt _ cond body, a, h, x, hx => by
    rw [Stmt.At] at h
    rw [Stmt.inner] at hx
    exact Stmt.at_of_mem_placed around inside body _ h.2.2 x hx
  | .ifElseStmt _ cond body other, a, h, x, hx => by
    rw [Stmt.At] at h
    rw [Stmt.inner] at hx
    rcases List.mem_append.mp hx with hx | hx
    · exact Stmt.at_of_mem_placed around inside body _ h.2.2.1 x hx
    · exact Stmt.at_of_mem_placed around inside other _ h.2.2.2.2 x hx
  | .whileStmt _ cond body, a, h, x, hx => by
    rw [Stmt.At] at h
    rw [Stmt.inner] at hx
    exact Stmt.at_of_mem_placed _ inside body _ h.2.2.1 x hx
  | .letStmt _ _ _, _, _, x, hx | .returnStmt _ _, _, _, x, hx | .breakStmt _, _, _, x, hx
  | .continueStmt _, _, _, x, hx | .exprStmt _ _, _, _, x, hx => by
    rw [Stmt.inner] at hx
    cases hx

/-- Every statement inside of a block stands where it is placed. -/
theorem Stmt.at_of_mem_placed (around : Option Program.LoopBounds) (inside : Bool) :
    ∀ (ss : List Stmt) (a : Nat), Stmt.AllAt p same around ss a →
      ∀ x ∈ Stmt.placed inside ss a, ∃ l, x.stmt.At p same l x.offset
  | [], _, _, x, hx => by
    rw [Stmt.placed] at hx
    cases hx
  | s :: rest, a, h, x, hx => by
    rw [Stmt.AllAt] at h
    rw [Stmt.placed] at hx
    rcases List.mem_append.mp hx with hx | hx
    · rcases List.mem_cons.mp hx with rfl | hx
      · exact ⟨around, h.1⟩
      · exact Stmt.at_of_mem_inner around inside s a h.1 x hx
    · exact Stmt.at_of_mem_placed around inside rest _ h.2 x hx

end

end Inner

/-! ## Blocks that end with a return -/

@[simp] theorem endsWithReturn_nil : endsWithReturn [] = false := rfl

theorem endsWithReturn_cons_cons (s t : Stmt) (rest : List Stmt) :
    endsWithReturn (s :: t :: rest) = endsWithReturn (t :: rest) := by
  simp only [endsWithReturn, List.getLast?_cons_cons]

/-- A single statement ends with a return if it is one. -/
theorem endsWithReturn_singleton {s : Stmt} :
    endsWithReturn [s] = true ↔ ∃ span value, s = .returnStmt span value := by
  cases s <;> simp [endsWithReturn]

/-! ## The end of the code of a tree -/

theorem Program.lt_size_of_code {p : Program} {i : Nat} {x : Instruction}
    (h : p.code[i]? = some x) : i < p.code.size :=
  (Array.getElem?_eq_some_iff.mp h).1

section Fits

variable {p : Program} {same : Literal → Literal → Prop}

mutual

/-- The code of a statement ends inside the program or at its end. -/
theorem Stmt.end_le_of_at (around : Option Program.LoopBounds) : ∀ (s : Stmt) (a : Nat),
    s.At p same around a → a ≤ p.code.size → a + s.width ≤ p.code.size
  | .letStmt _ _ none, a, _, ha => by rwa [Stmt.width, Nat.add_zero]
  -- In every other case the last instruction of the statement is in the code.
  | .letStmt _ _ (some value), a, h, _ => by
    rw [Stmt.At] at h
    obtain ⟨-, k, hcode, -⟩ := h
    have := Program.lt_size_of_code hcode
    rw [Stmt.width]
    omega
  | .fnStmt _ _ _ body, a, h, _ => by
    rw [Stmt.At] at h
    obtain ⟨hjump, hbody, hret⟩ := h
    have hend := Stmt.end_le_of_allAt none body (a + 1) hbody (Program.lt_size_of_code hjump)
    rw [Stmt.width]
    -- The body ends with a return, or one is added behind it.
    rcases hret with hends | hret
    · rw [if_pos hends]
      omega
    · have := Program.lt_size_of_code hret
      split <;> omega
  | .returnStmt _ none, a, h, _ => by
    rw [Stmt.At] at h
    have := Program.lt_size_of_code h
    rw [Stmt.width, Expr.width?]
    omega
  | .returnStmt _ (some value), a, h, _ => by
    rw [Stmt.At] at h
    have := Program.lt_size_of_code h.2
    rw [Stmt.width, Expr.width?]
    omega
  | .breakStmt _, a, h, _ => by
    rw [Stmt.width]
    cases around with
    | none => rw [Stmt.At] at h; exact Program.lt_size_of_code h
    | some l => rw [Stmt.At] at h; exact Program.lt_size_of_code h
  | .continueStmt _, a, h, _ => by
    rw [Stmt.width]
    cases around with
    | none => rw [Stmt.At] at h; exact Program.lt_size_of_code h
    | some l => rw [Stmt.At] at h; exact Program.lt_size_of_code h
  | .ifStmt _ cond body, a, h, _ => by
    rw [Stmt.At] at h
    obtain ⟨-, hjump, hbody⟩ := h
    have := Stmt.end_le_of_allAt around body _ hbody (Program.lt_size_of_code hjump)
    rw [Stmt.width]
    omega
  | .ifElseStmt _ cond body other, a, h, _ => by
    rw [Stmt.At] at h
    obtain ⟨-, -, -, hjump, hother⟩ := h
    have := Stmt.end_le_of_allAt around other _ hother (Program.lt_size_of_code hjump)
    rw [Stmt.width]
    omega
  | .whileStmt _ cond body, a, h, _ => by
    rw [Stmt.At] at h
    have := Program.lt_size_of_code h.2.2.2
    rw [Stmt.width]
    omega
  | .exprStmt _ value, a, h, _ => by
    rw [Stmt.At] at h
    have := Program.lt_size_of_code h.2
    rw [Stmt.width]
    omega

/-- The code of a block ends inside of the program. -/
theorem Stmt.end_le_of_allAt (around : Option Program.LoopBounds) : ∀ (ss : List Stmt) (a : Nat),
    Stmt.AllAt p same around ss a → a ≤ p.code.size → a + Stmt.widths ss ≤ p.code.size
  | [], a, _, ha => by rwa [Stmt.widths, Nat.add_zero]
  | s :: rest, a, h, ha => by
    rw [Stmt.AllAt] at h
    have hs := Stmt.end_le_of_at around s a h.1 ha
    have := Stmt.end_le_of_allAt around rest _ h.2 hs
    rw [Stmt.widths]
    omega

end

end Fits

end Scriptlet
