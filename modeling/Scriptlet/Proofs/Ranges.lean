import Scriptlet.Program.Stored

/-!
# Operands in range

A program is in range if every function starts in its code or at its end, and every operand points
into its pool.  The two checks of the loader accept exactly such programs, and otherwise name the
first function or the first instruction that is not in range.
-/

namespace Scriptlet

/-! ## Checks that stop at the first fault -/

section Checks

variable {ε α : Type} {check : α → Except ε Unit}

/-- A list passes a check if all its members do. -/
theorem forM_eq_ok {l : List α} : l.forM check = .ok () ↔ ∀ a ∈ l, check a = .ok () := by
  induction l with
  | nil => exact ⟨nofun, fun _ => rfl⟩
  | cons a l ih =>
    rw [List.forall_mem_cons, ← ih]
    show (check a >>= fun _ => l.forM check) = .ok () ↔ _
    cases check a with
    | error e => exact ⟨nofun, nofun⟩
    | ok u => exact ⟨fun h => ⟨rfl, h⟩, fun h => h.2⟩

/-- The first member that does not pass a check decides. -/
theorem forM_eq_error {before after : List α} {a : α} {e : ε}
    (hbefore : ∀ b ∈ before, check b = .ok ()) (ha : check a = .error e) :
    (before ++ a :: after).forM check = .error e := by
  induction before with
  | nil =>
    show (check a >>= fun _ => after.forM check) = .error e
    rw [ha]
    rfl
  | cons b before ih =>
    obtain ⟨hb, hrest⟩ := List.forall_mem_cons.mp hbefore
    show (check b >>= fun _ => (before ++ a :: after).forM check) = .error e
    rw [hb]
    exact ih hrest

end Checks

namespace Program

/-- The first operand of an instruction is below the limit of its operation, if there is one. -/
def OperandInRange (p : Program) (x : Instruction) : Prop :=
  ∀ limit, p.operandLimit? x.op = some limit → x.arg1 < limit

/-- Every function starts in the code or at its end, and every operand points into its pool. -/
structure InRange (p : Program) : Prop where
  offset : ∀ e ∈ p.functions.entries, e.2.offset ≤ p.code.size
  operand : ∀ {i : Nat} {x}, p.code[i]? = some x → p.OperandInRange x

variable {p : Program}

/-! ## The check of the offsets -/

/-- The check of the function offsets passes if and only if all of them are in the code or at its
end. -/
theorem checkOffsets_eq_ok :
    p.checkOffsets = .ok () ↔ ∀ e ∈ p.functions.entries, e.2.offset ≤ p.code.size := by
  refine forM_eq_ok.trans (forall₂_congr fun e _ => ?_)
  simp only [ite_eq_right_iff, reduceCtorEq, imp_false, Nat.not_lt]

/-- The check stops at the first function whose offset lies behind the code, and names it. -/
theorem checkOffsets_eq_error {before after : List (String × FunctionEntry)} {name : String}
    {f : FunctionEntry} (hentries : p.functions.entries = before ++ (name, f) :: after)
    (hbefore : ∀ e ∈ before, e.2.offset ≤ p.code.size) (hf : p.code.size < f.offset) :
    p.checkOffsets = .error (.badFunctionOffset name f.offset p.code.size) := by
  rw [checkOffsets, hentries]
  exact forM_eq_error (fun e he => if_neg (Nat.not_lt.mpr (hbefore e he))) (if_pos hf)

/-! ## The check of the operands -/

/-- What the loader checks of an instruction at an offset. -/
def checkOperand (p : Program) (x : Instruction × Nat) : Except LoadFault Unit :=
  match p.operandLimit? x.1.op with
  | some limit =>
    if x.1.arg1 < limit then .ok () else .error (.operandOutOfRange x.2 x.1.op x.1.arg1 limit)
  | none => .ok ()

theorem checkOperands_eq (p : Program) :
    p.checkOperands = p.code.toList.zipIdx.forM p.checkOperand := rfl

/-- The check of an instruction passes if and only if its operand is in range. -/
theorem checkOperand_eq_ok {x : Instruction} {i : Nat} :
    p.checkOperand (x, i) = .ok () ↔ p.OperandInRange x := by
  unfold checkOperand OperandInRange
  cases p.operandLimit? x.op with
  | none => exact ⟨nofun, fun _ => rfl⟩
  | some limit =>
    simp only [ite_eq_left_iff, reduceCtorEq, imp_false, Option.some.injEq, forall_eq',
      Decidable.not_not]

/-- The check of the operands passes if and only if all of them are in range. -/
theorem checkOperands_eq_ok :
    p.checkOperands = .ok () ↔ ∀ {i : Nat} {x}, p.code[i]? = some x → p.OperandInRange x := by
  rw [checkOperands_eq, forM_eq_ok]
  constructor
  · intro h i x hx
    refine checkOperand_eq_ok.mp (h (x, i) ?_)
    rwa [List.mem_zipIdx_iff_getElem?, Array.getElem?_toList]
  · rintro h ⟨x, i⟩ hx
    rw [List.mem_zipIdx_iff_getElem?, Array.getElem?_toList] at hx
    exact checkOperand_eq_ok.mpr (h hx)

/-- The check stops at the first instruction whose operand is out of range, and names it with the
limit. -/
theorem checkOperands_eq_error {i limit : Nat} {x : Instruction} (hx : p.code[i]? = some x)
    (hlimit : p.operandLimit? x.op = some limit) (hout : limit ≤ x.arg1)
    (hbefore : ∀ j y, j < i → p.code[j]? = some y → p.OperandInRange y) :
    p.checkOperands = .error (.operandOutOfRange i x.op x.arg1 limit) := by
  rw [← Array.getElem?_toList] at hx
  obtain ⟨hi, hget⟩ := List.getElem?_eq_some_iff.mp hx
  -- The list is cut at the instruction, which keeps its number.
  have hsplit : p.code.toList.zipIdx =
      (p.code.toList.take i).zipIdx ++ (x, i) :: (p.code.toList.drop (i + 1)).zipIdx (i + 1) := by
    have hcut := List.take_append_drop i p.code.toList
    rw [List.drop_eq_getElem_cons hi, hget] at hcut
    have hlen : (p.code.toList.take i).length = i := List.length_take_of_le (Nat.le_of_lt hi)
    rw [← congrArg List.zipIdx hcut, List.zipIdx_append, List.zipIdx_cons, hlen, Nat.zero_add]
  rw [checkOperands_eq, hsplit]
  refine forM_eq_error ?_ ?_
  · rintro ⟨y, j⟩ hy
    rw [List.mem_zipIdx_iff_getElem?] at hy
    have hj : j < i := by
      have := (List.getElem?_eq_some_iff.mp hy).1
      rw [List.length_take] at this
      omega
    rw [List.getElem?_take_of_lt hj, Array.getElem?_toList] at hy
    exact checkOperand_eq_ok.mpr (hbefore j y hj hy)
  · simp only [checkOperand, hlimit, if_neg (Nat.not_lt.mpr hout)]

/-! ## Loaded programs -/

/-- A program that is loaded is in range, whatever codec reads its text. -/
theorem inRange_of_load {codec : Json.Codec} {text : String} (h : load text codec = .ok p) :
    p.InRange := by
  unfold load at h
  split at h
  · cases h
  · next raw hraw =>
    cases hcode : namedCode raw.code with
    | error e =>
      rw [hcode] at h
      cases h
    | ok code =>
      rw [hcode] at h
      simp only [bind, Except.bind, pure, Except.pure] at h
      split at h
      · cases h
      · next u hoffsets =>
        split at h
        · cases h
        · next v hoperands =>
          cases h
          exact ⟨checkOffsets_eq_ok.mp hoffsets, checkOperands_eq_ok.mp hoperands⟩

end Program

end Scriptlet
