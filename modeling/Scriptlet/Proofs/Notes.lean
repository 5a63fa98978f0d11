import Scriptlet.Proofs.Placement

/-!
# Notes on the instructions of a program

Every instruction of a generated program has a note, which is read off the tree: how many values the
call at hand has on the stack when the machine comes to the instruction, whether the instruction
belongs to a function, and where the code begins that has put those values there.  Between
statements the call at hand has no values on the stack.
-/

namespace Scriptlet

/-- What is known whenever the machine comes to an instruction. -/
structure Note where
  /-- How many values the call at hand has on the stack. -/
  depth : Nat
  /-- Whether the instruction belongs to a function. -/
  inside : Bool
  /-- Where the code begins that has put these values on the stack. -/
  home : Nat
  deriving DecidableEq

/-- The note at an offset where the call at hand has no values on the stack. -/
def Note.rest (inside : Bool) (a : Nat) : Note := ⟨0, inside, a⟩

/-! ## The notes of a tree -/

mutual

/-- How many values are on the stack before each instruction of an expression, if there are `d`
before the first. -/
def Expr.depths (d : Nat) : Expr → List Nat
  | .literal _ _ => [d]
  | .name _ _ _ => [d]
  | .binary _ _ left right => left.depths d ++ (right.depths (d + 1) ++ [d + 2])
  | .not _ operand => operand.depths d ++ [d + 1]
  | .call _ _ _ args => Expr.depthsIn d args ++ [d + args.length]

/-- How many values are on the stack before each instruction of some expressions. -/
def Expr.depthsIn (d : Nat) : List Expr → List Nat
  | [] => []
  | e :: rest => e.depths d ++ Expr.depthsIn (d + 1) rest

end

/-- The notes of an expression at an offset and of the instruction behind it that takes its
value. -/
def Expr.notes (inside : Bool) (e : Expr) (a : Nat) : List Note :=
  (e.depths 0).map (⟨·, inside, a⟩) ++ [⟨1, inside, a⟩]

mutual

/-- The notes of a statement at an offset. -/
def Stmt.notes (inside : Bool) : Stmt → Nat → List Note
  | .letStmt _ _ none, _ => []
  | .letStmt _ _ (some value), a => value.notes inside a
  | .fnStmt _ _ _ body, a =>
    .rest inside a :: (Stmt.notesIn true body (a + 1) ++
      if endsWithReturn body then [] else [.rest true (a + 1 + Stmt.widths body)])
  | .returnStmt _ none, a => [.rest inside a]
  | .returnStmt _ (some value), a => value.notes inside a
  | .breakStmt _, a => [.rest inside a]
  | .continueStmt _, a => [.rest inside a]
  | .ifStmt _ cond body, a => cond.notes inside a ++ Stmt.notesIn inside body (a + cond.width + 1)
  | .ifElseStmt _ cond body other, a =>
    let between := a + cond.width + 1 + Stmt.widths body
    cond.notes inside a ++ (Stmt.notesIn inside body (a + cond.width + 1) ++
      .rest inside between :: Stmt.notesIn inside other (between + 1))
  | .whileStmt _ cond body, a =>
    cond.notes inside a ++ (Stmt.notesIn inside body (a + cond.width + 1) ++
      [.rest inside (a + cond.width + 1 + Stmt.widths body)])
  | .exprStmt _ value, a => value.notes inside a

/-- The notes of some statements at an offset. -/
def Stmt.notesIn (inside : Bool) : List Stmt → Nat → List Note
  | [], _ => []
  | s :: rest, a => s.notes inside a ++ Stmt.notesIn inside rest (a + s.width)

end

/-- The note of every offset of the program of a module. -/
def Module.note (m : Module) (i : Nat) : Note :=
  (Stmt.notesIn false m.body 0).getD i (.rest false i)

/-! ## Every instruction has one note -/

mutual

/-- Every instruction of an expression has a depth. -/
theorem Expr.length_depths (d : Nat) : ∀ e : Expr, (e.depths d).length = e.width
  | .literal _ _ => by rw [Expr.depths, Expr.width, List.length_singleton]
  | .name _ _ _ => by rw [Expr.depths, Expr.width, List.length_singleton]
  | .binary _ _ left right => by
    rw [Expr.depths, Expr.width, List.length_append, List.length_append, List.length_singleton,
      Expr.length_depths d left, Expr.length_depths (d + 1) right, Nat.add_assoc]
  | .not _ operand => by
    rw [Expr.depths, Expr.width, List.length_append, List.length_singleton,
      Expr.length_depths d operand]
  | .call _ _ _ args => by
    rw [Expr.depths, Expr.width, List.length_append, List.length_singleton,
      Expr.length_depthsIn d args]

theorem Expr.length_depthsIn (d : Nat) : ∀ es : List Expr,
    (Expr.depthsIn d es).length = Expr.widths es
  | [] => by rw [Expr.depthsIn, Expr.widths, List.length_nil]
  | e :: rest => by
    rw [Expr.depthsIn, Expr.widths, List.length_append, Expr.length_depths d e,
      Expr.length_depthsIn (d + 1) rest]

end

@[simp] theorem Expr.length_notes (inside : Bool) (e : Expr) (a : Nat) :
    (e.notes inside a).length = e.width + 1 := by
  rw [Expr.notes, List.length_append, List.length_map, Expr.length_depths, List.length_singleton]

mutual

/-- Every instruction of a statement has a note. -/
theorem Stmt.length_notes (inside : Bool) : ∀ (s : Stmt) (a : Nat),
    (s.notes inside a).length = s.width
  | .letStmt _ _ none, a => by rw [Stmt.notes, Stmt.width, List.length_nil]
  | .letStmt _ _ (some value), a => by rw [Stmt.notes, Stmt.width, Expr.length_notes]
  | .fnStmt _ _ _ body, a => by
    rw [Stmt.notes, Stmt.width, List.length_cons, List.length_append,
      Stmt.length_notesIn true body]
    split <;> simp only [List.length_nil, List.length_singleton] <;> omega
  | .returnStmt _ none, a => by rw [Stmt.notes, Stmt.width, Expr.width?, List.length_singleton]
  | .returnStmt _ (some value), a => by
    rw [Stmt.notes, Stmt.width, Expr.width?, Expr.length_notes]
  | .breakStmt _, a => by rw [Stmt.notes, Stmt.width, List.length_singleton]
  | .continueStmt _, a => by rw [Stmt.notes, Stmt.width, List.length_singleton]
  | .ifStmt _ cond body, a => by
    rw [Stmt.notes, Stmt.width, List.length_append, Expr.length_notes,
      Stmt.length_notesIn inside body]
  | .ifElseStmt _ cond body other, a => by
    rw [Stmt.notes, Stmt.width, List.length_append, Expr.length_notes, List.length_append,
      Stmt.length_notesIn inside body, List.length_cons, Stmt.length_notesIn inside other]
    omega
  | .whileStmt _ cond body, a => by
    rw [Stmt.notes, Stmt.width, List.length_append, Expr.length_notes, List.length_append,
      Stmt.length_notesIn inside body, List.length_singleton]
    omega
  | .exprStmt _ value, a => by rw [Stmt.notes, Stmt.width, Expr.length_notes]

/-- Every instruction of a block has a note. -/
theorem Stmt.length_notesIn (inside : Bool) : ∀ (ss : List Stmt) (a : Nat),
    (Stmt.notesIn inside ss a).length = Stmt.widths ss
  | [], a => by rw [Stmt.notesIn, Stmt.widths, List.length_nil]
  | s :: rest, a => by
    rw [Stmt.notesIn, Stmt.widths, List.length_append, Stmt.length_notes inside s,
      Stmt.length_notesIn inside rest]

end

/-! ## Notes at an offset -/

/-- The notes from an offset on are those of a list. -/
def Noted {α : Type} (note : Nat → α) : Nat → List α → Prop
  | _, [] => True
  | a, x :: rest => note a = x ∧ Noted note (a + 1) rest

section Lists

variable {α : Type} {note : Nat → α}

/-- Two parts are noted if each is, the second behind the first. -/
theorem noted_append {l l' : List α} {a : Nat} :
    Noted note a (l ++ l') ↔ Noted note a l ∧ Noted note (a + l.length) l' := by
  induction l generalizing a with
  | nil => simp [Noted]
  | cons x l ih =>
    rw [List.cons_append, Noted, Noted, ih, List.length_cons, and_assoc, Nat.add_assoc,
      Nat.add_comm 1]

theorem noted_singleton {x : α} {a : Nat} : Noted note a [x] ↔ note a = x := by
  simp [Noted]

/-- The notes of a list are those at its places. -/
theorem noted_of_getElem? {l : List α} {a : Nat}
    (h : ∀ i, i < l.length → l[i]? = some (note (a + i))) : Noted note a l := by
  induction l generalizing a with
  | nil => trivial
  | cons x l ih =>
    refine ⟨?_, ih fun i hi => ?_⟩
    · have h0 := h 0 (by simp)
      simp only [List.getElem?_cons_zero, Nat.add_zero, Option.some.injEq] at h0
      exact h0.symm
    · have hs := h (i + 1) (by simpa using hi)
      rw [List.getElem?_cons_succ] at hs
      rw [hs, Nat.add_assoc, Nat.add_comm 1]

end Lists

section Noted

variable {note : Nat → Note}

/-- The notes of an expression, and of the instruction that takes its value. -/
theorem noted_notes {inside : Bool} {e : Expr} {a : Nat} :
    Noted note a (e.notes inside a) ↔
      Noted note a ((e.depths 0).map (⟨·, inside, a⟩)) ∧ note (a + e.width) = ⟨1, inside, a⟩ := by
  rw [Expr.notes, noted_append, List.length_map, Expr.length_depths, noted_singleton]

/-! ## Statements begin and end without values -/

/-- Before the first instruction of an expression nothing was put on the stack. -/
theorem Expr.depths_eq_cons (d : Nat) : ∀ e : Expr, ∃ l, e.depths d = d :: l
  | .literal _ _ => ⟨[], by rw [Expr.depths]⟩
  | .name _ _ _ => ⟨[], by rw [Expr.depths]⟩
  | .binary _ _ left right => by
    obtain ⟨l, hl⟩ := Expr.depths_eq_cons d left
    exact ⟨_, by rw [Expr.depths, hl, List.cons_append]⟩
  | .not _ operand => by
    obtain ⟨l, hl⟩ := Expr.depths_eq_cons d operand
    exact ⟨_, by rw [Expr.depths, hl, List.cons_append]⟩
  | .call _ _ _ [] => ⟨[], by rw [Expr.depths, Expr.depthsIn]; rfl⟩
  | .call _ _ _ (e :: rest) => by
    obtain ⟨l, hl⟩ := Expr.depths_eq_cons d e
    exact ⟨_, by rw [Expr.depths, Expr.depthsIn, hl, List.cons_append, List.cons_append]⟩

/-- An expression that is noted begins with no values on the stack. -/
theorem noted_notes_start {inside : Bool} {e : Expr} {a : Nat}
    (h : Noted note a (e.notes inside a)) : note a = .rest inside a := by
  obtain ⟨l, hl⟩ := Expr.depths_eq_cons 0 e
  rw [Expr.notes, hl] at h
  exact h.1

/-- A statement begins without values on the stack, unless it has no code at all. -/
theorem Stmt.noted_start {inside : Bool} {s : Stmt} {a : Nat}
    (h : Noted note a (s.notes inside a)) :
    note a = .rest inside a ∨ ∃ span name, s = .letStmt span name none := by
  cases s with
  | letStmt span name value =>
    cases value with
    | none => exact .inr ⟨span, name, rfl⟩
    | some value => rw [Stmt.notes] at h; exact .inl (noted_notes_start h)
  | fnStmt span name params body => rw [Stmt.notes] at h; exact .inl h.1
  | returnStmt span value =>
    cases value with
    | none => rw [Stmt.notes] at h; exact .inl h.1
    | some value => rw [Stmt.notes] at h; exact .inl (noted_notes_start h)
  | breakStmt span => rw [Stmt.notes] at h; exact .inl h.1
  | continueStmt span => rw [Stmt.notes] at h; exact .inl h.1
  | ifStmt span cond body =>
    rw [Stmt.notes, noted_append] at h
    exact .inl (noted_notes_start h.1)
  | ifElseStmt span cond body other =>
    rw [Stmt.notes, noted_append] at h
    exact .inl (noted_notes_start h.1)
  | whileStmt span cond body =>
    rw [Stmt.notes, noted_append] at h
    exact .inl (noted_notes_start h.1)
  | exprStmt span value => rw [Stmt.notes] at h; exact .inl (noted_notes_start h)

/-- Statements without code are not returns. -/
theorem endsWithReturn_letStmt_cons (span : Span) (name : String) (rest : List Stmt) :
    endsWithReturn (.letStmt span name none :: rest) = endsWithReturn rest := by
  cases rest with
  | nil => rfl
  | cons t rest => exact endsWithReturn_cons_cons _ t rest

/-- A block begins without values on the stack, if the code behind it does. -/
theorem Stmt.noted_block_start {inside : Bool} : ∀ {ss : List Stmt} {a : Nat},
    Noted note a (Stmt.notesIn inside ss a) →
    (endsWithReturn ss = false → note (a + Stmt.widths ss) = .rest inside (a + Stmt.widths ss)) →
      note a = .rest inside a
  | [], a, _, hend => hend rfl
  | s :: rest, a, h, hend => by
    rw [Stmt.notesIn, noted_append, Stmt.length_notes] at h
    rcases Stmt.noted_start h.1 with hs | ⟨span, name, rfl⟩
    · exact hs
    · rw [endsWithReturn_letStmt_cons, Stmt.widths, Stmt.width, Nat.zero_add] at hend
      rw [Stmt.width] at h
      exact Stmt.noted_block_start h.2 hend

/-- The code of a function begins without values on the stack. -/
theorem Stmt.noted_body_start {inside : Bool} {span : Span} {name : String} {params : List String}
    {body : List Stmt} {a : Nat}
    (h : Noted note a ((Stmt.fnStmt span name params body).notes inside a)) :
    note (a + 1) = .rest true (a + 1) := by
  rw [Stmt.notes] at h
  have hbody := noted_append.mp h.2
  rw [Stmt.length_notesIn] at hbody
  refine Stmt.noted_block_start hbody.1 fun hends => ?_
  have hret := hbody.2
  rw [hends] at hret
  exact noted_singleton.mp hret

end Noted

end Scriptlet
