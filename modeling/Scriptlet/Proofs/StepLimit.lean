import Mathlib
import Scriptlet.Proofs.Runs

/-!
# Step limits

A step limit takes nothing away from a run that needs no more instructions than it allows.  Every
other run it stops exactly when they are used up, in the state in which the run without a limit is
after that many instructions, and there the machine stays however often it is started again
(`Program.runLimited_transparent`).
-/

namespace Scriptlet

namespace Program

variable {p : Program} {echo : Bool} {s t : State} {x : Instruction} {k m n limit : Nat}

/-! ## Counting instructions -/

/-- How many instructions a run without a step limit carries out in a given number of turns.  An
instruction that fails or ends the run counts, a turn at the end of the code does not. -/
def instructionsWithin (p : Program) (echo : Bool) : Nat → State → Nat
  | 0, _ => 0
  | n + 1, s =>
    match p.code[s.ip]? with
    | none => 0
    | some _ =>
      match p.turn ⟨echo, none⟩ s with
      | .next s' => p.instructionsWithin echo n s' + 1
      | _ => 1

/-- How many instructions a run without a step limit carries out: infinitely many if it does not
end. -/
noncomputable def instructions (p : Program) (echo : Bool) (s : State) : ℕ∞ :=
  ⨆ n, (p.instructionsWithin echo n s : ℕ∞)

theorem instructionsWithin_of_end (hcode : p.code[s.ip]? = none) (n : Nat) :
    p.instructionsWithin echo n s = 0 := by
  cases n with
  | zero => rfl
  | succ n => simp only [instructionsWithin, hcode]

theorem instructionsWithin_of_turn (h : p.turn ⟨echo, none⟩ s = .next t) (n : Nat) :
    p.instructionsWithin echo (n + 1) s = p.instructionsWithin echo n t + 1 := by
  cases hcode : p.code[s.ip]? with
  | none =>
    rw [turn_of_end hcode] at h
    cases h
  | some x => simp only [instructionsWithin, hcode, h]

theorem instructionsWithin_of_ended (hcode : p.code[s.ip]? = some x)
    (h : ¬(p.turn ⟨echo, none⟩ s).GoesOn) (n : Nat) :
    p.instructionsWithin echo (n + 1) s = 1 := by
  simp only [instructionsWithin, hcode]
  split
  · next t ht => exact absurd ⟨t, ht⟩ h
  · rfl

/-- More than `k` instructions are carried out if there is one to be carried out after `k` turns. -/
theorem lt_instructionsWithin_iff : k < p.instructionsWithin echo n s ↔
    k < n ∧ ∃ t x, p.runFor ⟨echo, none⟩ k s = .next t ∧ p.code[t.ip]? = some x := by
  induction n generalizing k s with
  | zero => simp [instructionsWithin]
  | succ n ih =>
    cases hcode : p.code[s.ip]? with
    | none =>
      -- At the end of the code no turn goes on, so only `k = 0` is left, where there is nothing.
      rw [instructionsWithin_of_end hcode]
      constructor
      · intro h
        exact absurd h (Nat.not_lt_zero k)
      · rintro ⟨-, t, x, hrun, ht⟩
        cases k with
        | zero =>
          cases hrun
          rw [hcode] at ht
          cases ht
        | succ k =>
          obtain ⟨u, hu, -⟩ := exists_turn_of_runFor_succ hrun
          rw [turn_of_end hcode] at hu
          cases hu
    | some y =>
      by_cases hgo : (p.turn ⟨echo, none⟩ s).GoesOn
      · obtain ⟨s', hs'⟩ := hgo
        rw [instructionsWithin_of_turn hs']
        cases k with
        | zero => exact iff_of_true (Nat.succ_pos _) ⟨Nat.succ_pos n, s, y, rfl, hcode⟩
        | succ k =>
          rw [Nat.add_lt_add_iff_right, Nat.add_lt_add_iff_right, runFor_succ_of_turn hs']
          exact ih
      · rw [instructionsWithin_of_ended hcode hgo]
        cases k with
        | zero => exact iff_of_true Nat.one_pos ⟨Nat.succ_pos n, s, y, rfl, hcode⟩
        | succ k =>
          refine iff_of_false (by omega) ?_
          rintro ⟨-, t, x, hrun, -⟩
          rw [runFor_succ_of_ended hgo] at hrun
          exact hgo ⟨t, hrun⟩

theorem lt_instructions_iff : (k : ℕ∞) < p.instructions echo s ↔
    ∃ t x, p.runFor ⟨echo, none⟩ k s = .next t ∧ p.code[t.ip]? = some x := by
  rw [instructions, lt_iSup_iff]
  constructor
  · rintro ⟨n, hn⟩
    exact (lt_instructionsWithin_iff.mp (Nat.cast_lt.mp hn)).2
  · intro h
    exact ⟨k + 1, Nat.cast_lt.mpr (lt_instructionsWithin_iff.mpr ⟨Nat.lt_succ_self k, h⟩)⟩

/-- A run that has ended carries out no further instructions. -/
theorem instructions_of_ended (h : ¬(p.runFor ⟨echo, none⟩ n s).GoesOn) :
    p.instructions echo s = p.instructionsWithin echo n s := by
  apply le_antisymm
  · refine iSup_le fun m => Nat.cast_le.mpr ?_
    refine Nat.le_of_not_lt fun hlt => ?_
    obtain ⟨-, t, x, hrun, hcode⟩ := lt_instructionsWithin_iff.mp hlt
    have hle : n ≤ p.instructionsWithin echo n s := by
      refine Nat.le_of_not_lt fun hn => ?_
      exact Nat.lt_irrefl _ (lt_instructionsWithin_iff.mpr ⟨hn, t, x, hrun, hcode⟩)
    exact h (exists_runFor_of_le hrun hle)
  · exact le_iSup (fun m => (p.instructionsWithin echo m s : ℕ∞)) n

/-- Infinitely many instructions are carried out exactly if the run does not end. -/
theorem instructions_eq_top_iff :
    p.instructions echo s = ⊤ ↔ ∀ n, (p.runFor ⟨echo, none⟩ n s).GoesOn := by
  constructor
  · intro htop n
    by_contra h
    rw [instructions_of_ended h] at htop
    exact ENat.natCast_ne_top _ htop
  · intro h
    refine ENat.eq_top_iff_forall_gt.mpr fun k => lt_instructions_iff.mpr ?_
    obtain ⟨s', hs'⟩ := h (k + 1)
    obtain ⟨t, ht, hturn⟩ := exists_last_turn hs'
    cases hcode : p.code[t.ip]? with
    | none =>
      rw [turn_of_end hcode] at hturn
      cases hturn
    | some x => exact ⟨t, x, ht, hcode⟩

/-! ## The count of steps -/

/-- An instruction is counted, whatever comes of it. -/
theorem steps_turn_of_code (hcode : p.code[s.ip]? = some x) (echo : Bool) :
    (p.turn ⟨echo, none⟩ s).state.steps = s.steps + 1 := by
  have hsteps := steps_execute (p := p) (s := s.begun) echo x
  rw [turn_of_code hcode]
  cases hexecute : p.execute echo x s.begun <;>
    · rw [hexecute] at hsteps
      exact hsteps

/-- The steps that a machine has counted are the instructions that it has carried out. -/
theorem steps_runFor (p : Program) (echo : Bool) (n : Nat) (s : State) :
    (p.runFor ⟨echo, none⟩ n s).state.steps = s.steps + p.instructionsWithin echo n s := by
  induction n generalizing s with
  | zero => rfl
  | succ n ih =>
    cases hcode : p.code[s.ip]? with
    | none =>
      have hended : ¬(p.turn ⟨echo, none⟩ s).GoesOn := by
        rw [turn_of_end hcode]
        rintro ⟨t, ⟨⟩⟩
      rw [runFor_succ_of_ended hended, turn_of_end hcode, instructionsWithin_of_end hcode]
      rfl
    | some x =>
      have hsteps := steps_turn_of_code hcode echo
      by_cases hgo : (p.turn ⟨echo, none⟩ s).GoesOn
      · obtain ⟨t, ht⟩ := hgo
        rw [ht] at hsteps
        change t.steps = s.steps + 1 at hsteps
        rw [runFor_succ_of_turn ht, instructionsWithin_of_turn ht, ih t, hsteps]
        omega
      · rw [runFor_succ_of_ended hgo, instructionsWithin_of_ended hcode hgo, hsteps]

/-! ## Turns and runs with a limit -/

/-- A limit that is not used up makes no difference. -/
theorem turn_of_steps_lt (h : s.steps < limit) :
    p.turn ⟨echo, some limit⟩ s = p.turn ⟨echo, none⟩ s := by
  have hreached : limitReached? ⟨echo, some limit⟩ s = none := by
    rw [limitReached?, Option.filter_some, if_neg (by simpa using h)]
  unfold turn
  rw [hreached]
  rfl

/-- A limit that is used up stops the machine before the next instruction. -/
theorem turn_of_limit_le (hcode : p.code[s.ip]? = some x) (h : limit ≤ s.steps) (echo : Bool) :
    p.turn ⟨echo, some limit⟩ s =
      .failed ⟨.stepLimitExceeded limit, some ⟨s.ip, x.op.name⟩⟩ s := by
  have hreached : limitReached? ⟨echo, some limit⟩ s = some limit := by
    rw [limitReached?, Option.filter_some, if_pos (by simpa using h)]
  simp only [turn, hcode, hreached, RuntimeFault.locate_of_none]

/-- A run is the same with and without a limit for as many turns as the limit allows. -/
theorem runFor_of_le_limit (h : s.steps + n ≤ limit) :
    p.runFor ⟨echo, some limit⟩ n s = p.runFor ⟨echo, none⟩ n s := by
  induction n generalizing s with
  | zero => rfl
  | succ n ih =>
    have hturn : p.turn ⟨echo, some limit⟩ s = p.turn ⟨echo, none⟩ s :=
      turn_of_steps_lt (by omega)
    by_cases hgo : (p.turn ⟨echo, none⟩ s).GoesOn
    · obtain ⟨t, ht⟩ := hgo
      have hsteps := (steps_of_turn ht).1
      rw [runFor_succ_of_turn ht, runFor_succ_of_turn (hturn.trans ht)]
      exact ih (by omega)
    · rw [runFor_succ_of_ended hgo, runFor_succ_of_ended (by rwa [hturn]), hturn]

/-- If there is still an instruction when the limit is used up, the run fails before it. -/
theorem runLimited_of_instruction (hsteps : s.steps ≤ limit)
    (hrun : p.runFor ⟨echo, none⟩ (limit - s.steps) s = .next t)
    (hcode : p.code[t.ip]? = some x) :
    t.steps = limit ∧ p.runLimited echo limit s =
      .failed ⟨.stepLimitExceeded limit, some ⟨t.ip, x.op.name⟩⟩ t := by
  have ht : t.steps = limit := by
    have := steps_of_runFor hrun
    omega
  have hstop := turn_of_limit_le hcode (Nat.le_of_eq ht.symm) echo
  have hended : ¬(p.turn ⟨echo, some limit⟩ t).GoesOn := by
    rw [hstop]
    rintro ⟨u, ⟨⟩⟩
  have hsame : p.runFor ⟨echo, some limit⟩ (limit - s.steps) s = .next t :=
    (runFor_of_le_limit (by omega)).trans hrun
  refine ⟨ht, ?_⟩
  rw [runLimited, runFor_concat_of_ended hsame hended, hstop]

/-- If there is none, the run ends as it does without a limit. -/
theorem runLimited_of_no_instruction (hsteps : s.steps ≤ limit)
    (h : ∀ t x, p.runFor ⟨echo, none⟩ (limit - s.steps) s = .next t → p.code[t.ip]? ≠ some x) :
    ¬(p.runFor ⟨echo, none⟩ (limit - s.steps + 1) s).GoesOn ∧
      p.runLimited echo limit s = p.runFor ⟨echo, none⟩ (limit - s.steps + 1) s := by
  have hsame : p.runFor ⟨echo, some limit⟩ (limit - s.steps) s =
      p.runFor ⟨echo, none⟩ (limit - s.steps) s := runFor_of_le_limit (by omega)
  rw [runLimited]
  by_cases hgo : (p.runFor ⟨echo, none⟩ (limit - s.steps) s).GoesOn
  · -- The code is at its end when the limit is used up, and that is seen first.
    obtain ⟨t, ht⟩ := hgo
    have hcode : p.code[t.ip]? = none := Option.eq_none_iff_forall_ne_some.mpr fun x => h t x ht
    have hdone : ∀ settings, ¬(p.turn settings t).GoesOn := by
      intro settings
      rw [turn_of_end hcode]
      rintro ⟨u, ⟨⟩⟩
    rw [runFor_concat_of_ended ht (hdone _), runFor_concat_of_ended (hsame.trans ht) (hdone _),
      turn_of_end hcode, turn_of_end hcode]
    exact ⟨by rintro ⟨u, ⟨⟩⟩, rfl⟩
  · rw [runFor_eq_of_ended hgo (Nat.le_succ _),
      runFor_eq_of_ended (by rwa [hsame]) (Nat.le_succ _)]
    exact ⟨hgo, hsame⟩

/-- The step limit is transparent.  The instructions that a run without a limit carries out are
those that its last state has counted, and infinitely many if the run does not end.  If a limit
allows them all, the run with the limit ends as the one without.  Otherwise it fails at the first
instruction beyond the limit, in the state in which the run without a limit is there, and a run that
is started in this state fails in the same way at once. -/
theorem runLimited_transparent (p : Program) (echo : Bool) (limit : Nat) (input : List UInt8)
    (globals : Variables) :
    (∀ n, ¬(p.runFor ⟨echo, none⟩ n (.initial input globals)).GoesOn →
      p.instructions echo (.initial input globals) =
        (p.runFor ⟨echo, none⟩ n (.initial input globals)).state.steps) ∧
    (p.instructions echo (.initial input globals) = ⊤ ↔
      ∀ n, (p.runFor ⟨echo, none⟩ n (.initial input globals)).GoesOn) ∧
    (p.instructions echo (.initial input globals) ≤ limit →
      ∃ n, ¬(p.runFor ⟨echo, none⟩ n (.initial input globals)).GoesOn ∧
        p.runLimited echo limit (.initial input globals) =
          p.runFor ⟨echo, none⟩ n (.initial input globals)) ∧
    (limit < p.instructions echo (.initial input globals) →
      ∃ t x, p.runFor ⟨echo, none⟩ limit (.initial input globals) = .next t ∧
        p.code[t.ip]? = some x ∧ t.steps = limit ∧
        p.runLimited echo limit (.initial input globals) =
          .failed ⟨.stepLimitExceeded limit, some ⟨t.ip, x.op.name⟩⟩ t ∧
        p.runLimited echo limit t =
          .failed ⟨.stepLimitExceeded limit, some ⟨t.ip, x.op.name⟩⟩ t) := by
  have hzero : (State.initial input globals).steps ≤ limit := Nat.zero_le limit
  refine ⟨fun n h => ?_, instructions_eq_top_iff, fun h => ?_, fun h => ?_⟩
  · have hsteps := p.steps_runFor echo n (.initial input globals)
    rw [instructions_of_ended h, hsteps]
    exact congrArg Nat.cast (Nat.zero_add _).symm
  · refine ⟨limit + 1, runLimited_of_no_instruction hzero fun t x ht hcode => ?_⟩
    exact absurd (lt_instructions_iff.mpr ⟨t, x, ht, hcode⟩) (not_lt.mpr h)
  · obtain ⟨t, x, hrun, hcode⟩ := lt_instructions_iff.mp h
    obtain ⟨hsteps, hstop⟩ := runLimited_of_instruction hzero hrun hcode
    -- Started again, the run is still at the limit.
    have hagain : p.runFor ⟨echo, none⟩ (limit - t.steps) t = .next t := by
      rw [hsteps, Nat.sub_self]
      rfl
    exact ⟨t, x, hrun, hcode, hsteps, hstop,
      (runLimited_of_instruction (Nat.le_of_eq hsteps) hagain hcode).2⟩

/-- A program that fails with its third instruction. -/
def drained : Program where
  code := #[⟨.loadConst, 0, 0⟩, ⟨.pop, 0, 0⟩, ⟨.pop, 0, 0⟩, ⟨.nop, 0, 0⟩]
  constants := #[.bool true]
  variableNames := #[]
  functions := ⟨[]⟩
  builtins := Builtin.names

/-- The state of `drained` before its third instruction. -/
def drainedBefore : State where
  ip := 2
  stack := []
  frames := []
  globals := .empty
  printed := []
  screen := []
  input := []
  steps := 2

/-- Three steps are enough for `drained` to fail by itself, and two are not. -/
theorem drained_limited :
    drained.instructions false (.initial [] .empty) = 3 ∧
    drained.runLimited false 3 (.initial [] .empty) =
      .failed ⟨.stackUnderflow, some ⟨2, "POP"⟩⟩ { drainedBefore with ip := 3, steps := 3 } ∧
    drained.runLimited false 2 (.initial [] .empty) =
      .failed ⟨.stepLimitExceeded 2, some ⟨2, "POP"⟩⟩ drainedBefore ∧
    drained.runLimited false 2 drainedBefore =
      .failed ⟨.stepLimitExceeded 2, some ⟨2, "POP"⟩⟩ drainedBefore := by
  have hfailed : drained.runFor ⟨false, none⟩ 3 (.initial [] .empty) =
      .failed ⟨.stackUnderflow, some ⟨2, "POP"⟩⟩ { drainedBefore with ip := 3, steps := 3 } := by
    with_unfolding_all rfl
  have hbefore : drained.runFor ⟨false, none⟩ 2 (.initial [] .empty) = .next drainedBefore := by
    with_unfolding_all rfl
  have hended : ¬(drained.runFor ⟨false, none⟩ 3 (.initial [] .empty)).GoesOn := by
    rw [hfailed]
    rintro ⟨t, ⟨⟩⟩
  -- With a limit of 3 the run fails by itself, and with a limit of 2 it is stopped before.
  obtain ⟨hcount, -, henough, -⟩ := runLimited_transparent drained false 3 [] .empty
  obtain ⟨-, -, -, hstopped⟩ := runLimited_transparent drained false 2 [] .empty
  have hthree : drained.instructions false (.initial [] .empty) = 3 := by
    rw [hcount 3 hended, hfailed]
    rfl
  refine ⟨hthree, ?_, ?_⟩
  · obtain ⟨n, hn, hsame⟩ := henough (le_of_eq hthree)
    rw [hsame, runFor_unique hn hended, hfailed]
  · obtain ⟨t, x, ht, hcode, -, hstop, hagain⟩ := hstopped (by rw [hthree]; decide)
    rw [hbefore] at ht
    cases ht
    have hpop : drained.code[2]? = some ⟨.pop, 0, 0⟩ := rfl
    cases hpop.symm.trans hcode
    exact ⟨hstop, hagain⟩

end Program

end Scriptlet
