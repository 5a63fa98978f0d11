import Scriptlet.Proofs.IntegerRounding
import Scriptlet.Proofs.Simulation

/-!
# Comparing integers

The machine orders integers by their size, but it takes them for equal if they are rounded to the
same floating point value.  So the laws of a total order hold for two integers if and only if they
are the same or are rounded to different values (`Opcode.comparisons_of_ints`), and they fail for
two neighbours above two to the power 53 (`Opcode.orderLaws_fails`).
-/

namespace Scriptlet

namespace Opcode

/-! ## Verdicts of the machine -/

/-- Wherever an operation finds two values on the stack, it leaves a given truth value in their
place. -/
def Judges (op : Opcode) (a b : Value) (verdict : Bool) : Prop :=
  ∀ (p : Program) (settings : Settings) (s : State) (i : Instruction) (rest : List Value),
    p.code[s.ip]? = some i → i.op = op → Program.limitReached? settings s = none →
    s.stack = b :: a :: rest →
    p.turn settings s = .next { s.begun with stack := .bool verdict :: rest }

/-- The verdict is the result of the operation of the language. -/
theorem judges_of_apply (op : BinaryOp) {a b : Value} {verdict : Bool}
    (h : op.apply a b = .ok (.bool verdict)) : op.opcode.Judges a b verdict := by
  intro p settings s i rest hcode hop hlimit hstack
  have hbegun : s.begun.stack = b :: a :: rest := hstack
  have hexecute : p.execute settings.echo i s.begun =
      .next { s.begun with stack := .bool verdict :: rest } := by
    rw [Program.execute_binary op hop]
    simp only [State.binary, hbegun, h]
  simp only [State.begun] at hexecute ⊢
  simp only [Program.turn, hcode, hlimit, hexecute]

/-- There is no more than one verdict. -/
theorem Judges.eq {op : Opcode} {a b : Value} {v w : Bool} (hv : op.Judges a b v)
    (hw : op.Judges a b w) : v = w := by
  let p : Program := ⟨#[⟨op, 0, 0⟩], #[], #[], .empty, []⟩
  let s : State := { State.initial [] .empty with stack := [b, a] }
  have hnext := (hv p ⟨false, none⟩ s ⟨op, 0, 0⟩ [] rfl rfl rfl rfl).symm.trans
    (hw p ⟨false, none⟩ s ⟨op, 0, 0⟩ [] rfl rfl rfl rfl)
  have hstack := congrArg State.stack (Turn.next.inj hnext)
  exact Value.bool.inj (List.cons.inj hstack).1

/-- An operation finds that two integers are related. -/
def Holds (op : Opcode) (a b : Int64) : Prop := op.Judges (.int a) (.int b) true

theorem Judges.holds_iff {op : Opcode} {a b : Int64} {v : Bool}
    (h : op.Judges (.int a) (.int b) v) : op.Holds a b ↔ v = true := by
  constructor
  · exact fun hholds => h.eq hholds
  · rintro rfl
    exact h

/-- The verdicts on two integers are those of a total order. -/
structure OrderLaws (a b : Int64) : Prop where
  one : (lt.Holds a b ∧ ¬eq.Holds a b ∧ ¬gt.Holds a b) ∨
    (¬lt.Holds a b ∧ eq.Holds a b ∧ ¬gt.Holds a b) ∨
    (¬lt.Holds a b ∧ ¬eq.Holds a b ∧ gt.Holds a b)
  eq_iff : eq.Holds a b ↔ a = b
  neq_iff : neq.Holds a b ↔ ¬eq.Holds a b
  lte_iff : lte.Holds a b ↔ lt.Holds a b ∨ eq.Holds a b
  gte_iff : gte.Holds a b ↔ gt.Holds a b ∨ eq.Holds a b

/-! ## Verdicts on integers -/

section Ints

variable (a b : Int64)

/-- The verdict of a test on the order of two integers. -/
theorem judges_of_order (op : BinaryOp) {test : Ordering → Bool} {P : Prop} [Decidable P]
    (happly : op.apply (.int a) (.int b) = .ok (.bool (test (compare a.toInt b.toInt))))
    (htest : test (compare a.toInt b.toInt) = true ↔ P) :
    op.opcode.Judges (.int a) (.int b) (decide P) := by
  rw [Bool.eq_iff_iff.2 (htest.trans decide_eq_true_iff.symm)] at happly
  exact judges_of_apply op happly

theorem judges_lt : lt.Judges (.int a) (.int b) (decide (a.toInt < b.toInt)) :=
  judges_of_order a b .lt rfl (Ordering.isLT_iff_eq_lt.trans compare_lt_iff_lt)

theorem judges_lte : lte.Judges (.int a) (.int b) (decide (a.toInt ≤ b.toInt)) :=
  judges_of_order a b .ltEq rfl Std.isLE_compare

theorem judges_gt : gt.Judges (.int a) (.int b) (decide (b.toInt < a.toInt)) :=
  judges_of_order a b .gt rfl (Ordering.isGT_iff_eq_gt.trans compare_gt_iff_gt)

theorem judges_gte : gte.Judges (.int a) (.int b) (decide (b.toInt ≤ a.toInt)) :=
  judges_of_order a b .gtEq rfl Std.isGE_compare

theorem judges_eq : eq.Judges (.int a) (.int b)
    (decide (Binary64.roundInt a.toInt = Binary64.roundInt b.toInt)) := by
  rw [← Value.nearestFloat_beq]
  exact judges_of_apply .eq rfl

theorem judges_neq : neq.Judges (.int a) (.int b)
    (!decide (Binary64.roundInt a.toInt = Binary64.roundInt b.toInt)) := by
  rw [← Value.nearestFloat_beq]
  exact judges_of_apply .notEq rfl

/-- The laws of a total order hold for integers that are the same or are rounded to different
values. -/
theorem orderLaws_iff :
    OrderLaws a b ↔ (Binary64.roundInt a.toInt = Binary64.roundInt b.toInt → a = b) := by
  have hlt : lt.Holds a b ↔ a.toInt < b.toInt := by
    rw [(judges_lt a b).holds_iff, decide_eq_true_iff]
  have hlte : lte.Holds a b ↔ a.toInt ≤ b.toInt := by
    rw [(judges_lte a b).holds_iff, decide_eq_true_iff]
  have hgt : gt.Holds a b ↔ b.toInt < a.toInt := by
    rw [(judges_gt a b).holds_iff, decide_eq_true_iff]
  have hgte : gte.Holds a b ↔ b.toInt ≤ a.toInt := by
    rw [(judges_gte a b).holds_iff, decide_eq_true_iff]
  have heq : eq.Holds a b ↔ Binary64.roundInt a.toInt = Binary64.roundInt b.toInt := by
    rw [(judges_eq a b).holds_iff, decide_eq_true_iff]
  have hneq : neq.Holds a b ↔ ¬eq.Holds a b := by
    rw [(judges_neq a b).holds_iff, Bool.not_eq_true', decide_eq_false_iff_not, heq]
  constructor
  · exact fun h hround => h.eq_iff.1 (heq.2 hround)
  · intro h
    -- If no two integers are rounded to one number, all six comparisons are those of integers.
    have hsame : eq.Holds a b ↔ a.toInt = b.toInt := by
      rw [heq]
      exact ⟨fun hround => congrArg Int64.toInt (h hround), congrArg Binary64.roundInt⟩
    refine ⟨?_, hsame.trans Int64.toInt_inj, hneq, ?_, ?_⟩
    · rw [hlt, hsame, hgt]
      omega
    · rw [hlte, hlt, hsame]
      omega
    · rw [hgte, hgt, hsame]
      omega

/-- What the machine finds for two integers: their order is that of their sizes, and they are equal
if they are rounded to the same floating point value.  So the laws of a total order hold if and only
if the two are the same or are rounded to different values, and that is so up to two to the power
53. -/
theorem comparisons_of_ints :
    lt.Judges (.int a) (.int b) (decide (a.toInt < b.toInt)) ∧
    lte.Judges (.int a) (.int b) (decide (a.toInt ≤ b.toInt)) ∧
    gt.Judges (.int a) (.int b) (decide (b.toInt < a.toInt)) ∧
    gte.Judges (.int a) (.int b) (decide (b.toInt ≤ a.toInt)) ∧
    eq.Judges (.int a) (.int b)
      (decide (Binary64.roundInt a.toInt = Binary64.roundInt b.toInt)) ∧
    neq.Judges (.int a) (.int b)
      (!decide (Binary64.roundInt a.toInt = Binary64.roundInt b.toInt)) ∧
    (OrderLaws a b ↔ (Binary64.roundInt a.toInt = Binary64.roundInt b.toInt → a = b)) ∧
    (a.toInt.natAbs ≤ 2 ^ 53 → b.toInt.natAbs ≤ 2 ^ 53 → OrderLaws a b) := by
  refine ⟨judges_lt a b, judges_lte a b, judges_gt a b, judges_gte a b, judges_eq a b,
    judges_neq a b, orderLaws_iff a b, fun ha hb => (orderLaws_iff a b).2 fun hround => ?_⟩
  rw [Binary64.roundInt_of_le ha, Binary64.roundInt_of_le hb] at hround
  exact Int64.toInt_inj.1 hround

end Ints

/-- Two to the power 53 is both equal to the next integer and smaller than it. -/
theorem orderLaws_fails :
    eq.Holds 9007199254740992 9007199254740993 ∧ lt.Holds 9007199254740992 9007199254740993 ∧
      ¬OrderLaws 9007199254740992 9007199254740993 := by
  have hround : Binary64.roundInt (9007199254740992 : Int64).toInt =
      Binary64.roundInt (9007199254740993 : Int64).toInt := by
    decide +kernel
  refine ⟨(judges_eq _ _).holds_iff.2 (decide_eq_true hround),
    (judges_lt _ _).holds_iff.2 (by decide +kernel), fun h => ?_⟩
  exact absurd ((orderLaws_iff _ _).1 h hround) (by decide)

end Opcode

end Scriptlet
