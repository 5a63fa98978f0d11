import Scriptlet.Proofs.Rounding

/-!
# Decimals that read back

The decimal that is written for a finite number lies in the basin of the number, and a decimal in
the basin is read as the number.
-/

namespace Scriptlet.Decimal

open Binary64

/-- The number that a decimal stands for. -/
def value (d : Decimal) : ℚ := d.coefficient * 10 ^ d.exponent

variable {m : Nat} {e : Int}

/-! ## Reading -/

/-- The least number that rounds to a word other than zero is more than ten to the power -325. -/
theorem two_pow_le_ten_pow : 2 ^ 1076 ≤ 10 ^ 325 := by decide +kernel

/-- The numbers of a basin are below two to the power 1024. -/
theorem lt_of_contains (hm : 0 < m) (hnormal : Normal m e) {x : ℚ}
    (h : (basin m e).Contains (x / 2 ^ (e - 2))) : x < 2 ^ (1024 : Int) := by
  rw [div_quarter] at h
  have hhigh := (h.units hm).2.1
  have hbits : (m : ℚ) + 1 / 2 < 2 ^ (53 : Int) := by
    have hlt : m + 1 ≤ 2 ^ 53 := hnormal.lt
    have hcast : (m : ℚ) + 1 ≤ 2 ^ (53 : Int) := by exact_mod_cast hlt
    linarith
  have hgreatest := hnormal.le_greatest
  have hpow : (0 : ℚ) < 2 ^ e := by positivity
  calc x ≤ (m + 1 / 2) * 2 ^ e := (div_le_iff₀ hpow).mp hhigh
    _ < 2 ^ (53 : Int) * 2 ^ e := by gcongr
    _ = 2 ^ (53 + e) := (zpow_add₀ two_ne_zero _ _).symm
    _ ≤ 2 ^ (1024 : Int) := zpow_le_zpow_right₀ one_le_two (by omega)

/-- The numbers of a basin are not below two to the power -1075. -/
theorem le_of_contains (hm : 0 < m) (hnormal : Normal m e) {x : ℚ}
    (h : (basin m e).Contains (x / 2 ^ (e - 2))) : 2 ^ (-1075 : Int) ≤ x := by
  rw [div_quarter] at h
  have hlow := (h.units hm).1
  have hhalf : (2 : ℚ) ^ (-1 : Int) ≤ m - 1 / 2 := by
    have hone : (1 : ℚ) ≤ m := by exact_mod_cast hm
    norm_num
    linarith
  have hleast : (-1074 : Int) ≤ e := hnormal.least_le
  have hpow : (0 : ℚ) < 2 ^ e := by positivity
  calc (2 : ℚ) ^ (-1075 : Int) ≤ 2 ^ (-1 + e) := zpow_le_zpow_right₀ one_le_two (by omega)
    _ = 2 ^ (-1 : Int) * 2 ^ e := zpow_add₀ two_ne_zero _ _
    _ ≤ (m - 1 / 2) * 2 ^ e := by gcongr
    _ ≤ x := (le_div_iff₀ hpow).mp hlow

/-- A decimal in the basin of a number is not zero. -/
theorem coefficient_pos_of_contains (hm : 0 < m) (hnormal : Normal m e) {d : Decimal}
    (h : (basin m e).Contains (d.value / 2 ^ (e - 2))) : 0 < d.coefficient := by
  have hlow := le_of_contains hm hnormal h
  refine Nat.pos_of_ne_zero fun hzero => ?_
  rw [value, hzero, Nat.cast_zero, zero_mul] at hlow
  exact absurd hlow (not_le.mpr (by positivity))

/-- A decimal in the basin of a number is read as the number. -/
theorem nearestBits_of_contains (hm : 0 < m) (hnormal : Normal m e) {d : Decimal}
    (h : (basin m e).Contains (d.value / 2 ^ (e - 2))) : d.nearestBits = magnitudeBits m e := by
  have hlow := le_of_contains hm hnormal h
  have hhigh := lt_of_contains hm hnormal h
  have hpos := coefficient_pos_of_contains hm hnormal h
  -- The shortcuts for numbers that are far too large or far too small are not taken.
  have hsmall : ¬ 310 < d.exponent := by
    intro hlt
    refine absurd hhigh (not_lt.mpr ?_)
    have hone : (1 : ℚ) ≤ d.coefficient := by exact_mod_cast hpos
    have hpow : 2 ^ 1024 ≤ 10 ^ 311 := by decide +kernel
    calc (2 : ℚ) ^ (1024 : Int) ≤ 10 ^ (311 : Int) := by exact_mod_cast hpow
      _ ≤ 10 ^ d.exponent := zpow_le_zpow_right₀ (by norm_num) (by omega)
      _ ≤ d.coefficient * 10 ^ d.exponent := le_mul_of_one_le_left (by positivity) hone
  have hlarge : ¬ d.exponent + d.coefficient.log2 + 1 < -324 := by
    intro hlt
    refine absurd hlow (not_le.mpr ?_)
    have hlog : (d.coefficient : ℚ) < 10 ^ ((d.coefficient.log2 : Int) + 1) := by
      have hlt : d.coefficient < 10 ^ (d.coefficient.log2 + 1) :=
        Nat.lt_log2_self.trans_le (Nat.pow_le_pow_left (by decide) _)
      exact_mod_cast hlt
    calc d.coefficient * (10 : ℚ) ^ d.exponent
        < 10 ^ ((d.coefficient.log2 : Int) + 1) * 10 ^ d.exponent := by gcongr
      _ = 10 ^ ((d.coefficient.log2 : Int) + 1 + d.exponent) := (zpow_add₀ (by norm_num) _ _).symm
      _ ≤ 10 ^ (-325 : Int) := zpow_le_zpow_right₀ (by norm_num) (by omega)
      _ ≤ 2 ^ (-1076 : Int) := by
        rw [zpow_neg, zpow_neg]
        gcongr
        exact_mod_cast two_pow_le_ten_pow
      _ ≤ 2 ^ (-1075 : Int) := zpow_le_zpow_right₀ one_le_two (by decide)
  rw [nearestBits, if_neg (Nat.ne_of_gt hpos), if_neg hsmall, if_neg hlarge]
  refine Binary64.nearestBits_of_contains (Nat.pow_pos (by decide)) hm hnormal ?_
  rw [value, zpow_eq_div (by norm_num), ← mul_div_assoc] at h
  rw [Nat.pow_eq, Nat.pow_eq]
  exact_mod_cast h

/-! ## Writing -/

namespace Basin

/-- Whether a multiple of `step` lies in the basin stretched by `stretch`. -/
def holds (b : Basin) (stretch step n : Nat) : Bool :=
  if b.closed then b.low * stretch ≤ n * step && n * step ≤ b.high * stretch
  else b.low * stretch < n * step && n * step < b.high * stretch

theorem contains_of_holds {b : Basin} {stretch step n : Nat} (hpos : 0 < stretch)
    (h : b.holds stretch step n = true) : b.Contains (n * step / stretch) := by
  have hposQ : (0 : ℚ) < stretch := by exact_mod_cast hpos
  rw [Contains, le_div_iff₀ hposQ, div_le_iff₀ hposQ, lt_div_iff₀ hposQ, div_lt_iff₀ hposQ]
  rw [holds] at h
  split at h
  · next hclosed =>
    rw [if_pos hclosed]
    rw [Bool.and_eq_true, decide_eq_true_eq, decide_eq_true_eq] at h
    exact_mod_cast h
  · next hopen =>
    rw [if_neg hopen]
    rw [Bool.and_eq_true, decide_eq_true_eq, decide_eq_true_eq] at h
    exact_mod_cast h

/-- A search finds a multiple in the basin, or neither neighbour of its middle lies there. -/
theorem multiple?_cases (b : Basin) (tie : Tie) (stretch step : Nat) :
    (∃ n, b.multiple? tie stretch step = some n ∧ b.holds stretch step n = true) ∨
      b.multiple? tie stretch step = none ∧
        b.holds stretch step (b.mid * stretch / step) = false := by
  dsimp only [multiple?]
  split
  · next hbelow _ => exact .inl ⟨_, rfl, hbelow⟩
  · next _ habove => exact .inl ⟨_, rfl, habove⟩
  · next hbelow _ => exact .inr ⟨rfl, hbelow⟩
  · next hbelow habove =>
    left
    split
    · exact ⟨_, rfl, hbelow⟩
    · split
      · exact ⟨_, rfl, habove⟩
      · cases tie with
        | up => exact ⟨_, rfl, habove⟩
        | even =>
          dsimp only
          split
          · exact ⟨_, rfl, hbelow⟩
          · exact ⟨_, rfl, habove⟩

/-- A step of at most a quarter does not pass over the left side of a basin. -/
theorem holds_below {b : Basin} {stretch step : Nat} (hlow : b.low < b.mid)
    (hhigh : b.mid < b.high) (hstep : 0 < step) (hle : step ≤ stretch) :
    b.holds stretch step (b.mid * stretch / step) = true := by
  have hdiv := Nat.div_mul_le_self (b.mid * stretch) step
  have hnext := Nat.lt_mul_div_succ (b.mid * stretch) hstep
  have hleft := Nat.mul_le_mul_right stretch (Nat.succ_le_of_lt hlow)
  have hright := Nat.mul_le_mul_right stretch (Nat.succ_le_of_lt hhigh)
  rw [Nat.mul_add, Nat.mul_comm step] at hnext
  rw [Nat.succ_mul] at hleft hright
  rw [holds]
  split
  · rw [Bool.and_eq_true, decide_eq_true_eq, decide_eq_true_eq]
    omega
  · rw [Bool.and_eq_true, decide_eq_true_eq, decide_eq_true_eq]
    omega

end Basin

/-- A grid point is looked for with whole numbers only. -/
theorem onGrid?_eq (tie : Tie) (m : Nat) (e k : Int) :
    onGrid? tie m e k = (basin m e).multiple? tie (2 ^ (e - 2).toNat * 10 ^ (-k).toNat)
      (2 ^ (-(e - 2)).toNat * 10 ^ k.toNat) := rfl

/-- A grid that has a point for a number has it in the basin. -/
theorem contains_of_onGrid? {tie : Tie} {k : Int} {n : Nat} (h : onGrid? tie m e k = some n) :
    (basin m e).Contains (value ⟨n, k⟩ / 2 ^ (e - 2)) := by
  rw [onGrid?_eq] at h
  obtain ⟨n', hfound, hholds⟩ | ⟨hnone, -⟩ := (basin m e).multiple?_cases tie
    (2 ^ (e - 2).toNat * 10 ^ (-k).toNat) (2 ^ (-(e - 2)).toNat * 10 ^ k.toNat)
  · cases hfound.symm.trans h
    have hcontains := Basin.contains_of_holds (by positivity) hholds
    rw [value, zpow_eq_div two_ne_zero, zpow_eq_div (by norm_num : (10 : ℚ) ≠ 0)]
    convert hcontains using 1
    push_cast
    field_simp
  · cases hnone.symm.trans h

/-- A fine grid has a point for every number. -/
theorem onGrid?_ne_none (tie : Tie) (hm : 0 < m) (hnormal : Normal m e) {k : Int} (hk : k ≤ -325) :
    onGrid? tie m e k ≠ none := by
  have hlow : (basin m e).low < (basin m e).mid := by
    dsimp only [basin]
    split <;> omega
  have hfine : 2 ^ (-(e - 2)).toNat * 10 ^ k.toNat ≤ 2 ^ (e - 2).toNat * 10 ^ (-k).toNat := by
    have hleast : (-1074 : Int) ≤ e := hnormal.least_le
    rw [Int.toNat_of_nonpos (by omega : k ≤ 0), pow_zero, mul_one]
    calc 2 ^ (-(e - 2)).toNat ≤ 2 ^ 1076 := Nat.pow_le_pow_right (by decide) (by omega)
      _ ≤ 10 ^ 325 := two_pow_le_ten_pow
      _ ≤ 10 ^ (-k).toNat := pow_le_pow_right₀ (by decide) (by omega)
      _ ≤ 2 ^ (e - 2).toNat * 10 ^ (-k).toNat := Nat.le_mul_of_pos_left _ (by positivity)
  rw [onGrid?_eq]
  obtain ⟨n, hfound, -⟩ | ⟨-, hbelow⟩ := (basin m e).multiple?_cases tie
    (2 ^ (e - 2).toNat * 10 ^ (-k).toNat) (2 ^ (-(e - 2)).toNat * 10 ^ k.toNat)
  · rw [hfound]
    exact Option.some_ne_none n
  · have hhigh : (basin m e).mid < (basin m e).high := Nat.lt_add_of_pos_right Nat.two_pos
    rw [Basin.holds_below hlow hhigh (by positivity) hfine] at hbelow
    cases hbelow

/-- The coarsest grid that is tried. -/
theorem coarsest_le (hnormal : Normal m e) : coarsest m e ≤ 310 := by
  have hlog : m.log2 ≤ 52 := by
    by_cases hzero : m = 0
    · rw [hzero]
      decide
    · have := (Nat.log2_lt hzero).mpr (show m < 2 ^ 53 from hnormal.lt)
      omega
  have := hnormal.le_greatest
  rw [coarsest]
  omega

/-- The decimal that is written for a number lies in its basin. -/
theorem shortest_contains (tie : Tie) (hm : 0 < m) (hnormal : Normal m e) :
    (basin m e).Contains ((shortest tie m e).value / 2 ^ (e - 2)) := by
  dsimp only [shortest]
  cases hfound : (List.range 640).findSome? fun (i : Nat) =>
    (onGrid? tie m e (coarsest m e - i)).map fun n => (⟨n, coarsest m e - i⟩ : Decimal) with
  | none =>
    -- The finest grid that is tried has a point.
    have hlast := List.findSome?_eq_none_iff.mp hfound 639 (List.mem_range.mpr (by decide))
    have := coarsest_le hnormal
    exact absurd (Option.map_eq_none_iff.mp hlast) (onGrid?_ne_none tie hm hnormal (by omega))
  | some d =>
    obtain ⟨i, -, hd⟩ := List.exists_of_findSome?_eq_some hfound
    obtain ⟨n, hn, rfl⟩ := Option.map_eq_some_iff.mp hd
    exact contains_of_onGrid? hn

end Scriptlet.Decimal
