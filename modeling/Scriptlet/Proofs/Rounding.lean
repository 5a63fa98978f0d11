import Scriptlet.Decimal.Shortest
import Scriptlet.Proofs.FloatWords

/-!
# Rounding to the nearest word

The basin of a finite number is what rounds to it: every fraction in the basin has the number's word
as its nearest one.
-/

namespace Scriptlet

namespace Binary64

/-! ## Rounding to a whole number -/

/-- A fraction at most a half away from a whole number rounds to it, if it is nearer than that or
the number is even. -/
theorem roundHalfEven_eq {num den n : Nat} (hlow : 2 * (den * n) ≤ 2 * num + den)
    (hhigh : 2 * num ≤ 2 * (den * n) + den)
    (htie : n % 2 = 0 ∨ 2 * (den * n) < 2 * num + den ∧ 2 * num < 2 * (den * n) + den)
    (hden : 0 < den) : roundHalfEven num den = n := by
  have hsplit := Nat.div_add_mod num den
  have hrest := Nat.mod_lt num hden
  rw [roundHalfEven]
  generalize num / den = quotient at *
  generalize num % den = rest at *
  have hle : quotient ≤ n := by
    by_contra hlt
    have := Nat.mul_le_mul_left den (show n + 1 ≤ quotient by omega)
    rw [Nat.mul_add] at this
    omega
  have hge : n ≤ quotient + 1 := by
    by_contra hlt
    have := Nat.mul_le_mul_left den (show quotient + 2 ≤ n by omega)
    rw [Nat.mul_add] at this
    omega
  -- Only the quotient and the number above it are close enough.
  obtain rfl | rfl : n = quotient ∨ n = quotient + 1 := by omega
  · split
    · rfl
    · rw [if_neg (by omega), if_pos (by omega)]
  · rw [Nat.mul_add, Nat.mul_one] at *
    rw [if_neg (by omega)]
    split
    · rfl
    · rw [if_neg (by omega)]

/-! ## The exponent of a fraction -/

/-- A power with a whole exponent, as a fraction of two natural powers. -/
theorem zpow_eq_div {a : ℚ} (ha : a ≠ 0) (q : Int) : a ^ q = a ^ q.toNat / a ^ (-q).toNat := by
  rw [← zpow_natCast, ← zpow_natCast, ← zpow_sub₀ ha]
  congr 1
  omega

/-- Scaling divides by a power of two. -/
theorem scaleDown_value (num den : Nat) (q : Int) :
    ((scaleDown num den q).1 : ℚ) / (scaleDown num den q).2 = num / den / 2 ^ q := by
  rw [scaleDown, zpow_eq_div two_ne_zero, Nat.pow_eq, Nat.pow_eq]
  push_cast
  rw [div_div_div_eq]

theorem scaleDown_den_pos (num : Nat) {den : Nat} (hden : 0 < den) (q : Int) :
    0 < (scaleDown num den q).2 :=
  Nat.mul_pos hden (Nat.pow_pos Nat.two_pos)

/-- The size of a fraction, from the sizes of its parts. -/
theorem log2_bounds {num den : Nat} (hnum : 0 < num) (hden : 0 < den) :
    (2 : ℚ) ^ ((num.log2 : Int) - den.log2 - 1) < num / den ∧
      (num : ℚ) / den < 2 ^ ((num.log2 : Int) - den.log2 + 1) := by
  have hpos : (0 : ℚ) < den := by exact_mod_cast hden
  -- Both numbers lie between a power of two and the next one.
  have hnum₁ : (2 : ℚ) ^ (num.log2 : Int) ≤ num := by
    exact_mod_cast Nat.log2_self_le (Nat.ne_of_gt hnum)
  have hnum₂ : (num : ℚ) < 2 ^ ((num.log2 : Int) + 1) := by
    exact_mod_cast Nat.lt_log2_self (n := num)
  have hden₁ : (2 : ℚ) ^ (den.log2 : Int) ≤ den := by
    exact_mod_cast Nat.log2_self_le (Nat.ne_of_gt hden)
  have hden₂ : (den : ℚ) < 2 ^ ((den.log2 : Int) + 1) := by
    exact_mod_cast Nat.lt_log2_self (n := den)
  constructor
  · rw [lt_div_iff₀ hpos]
    calc (2 : ℚ) ^ ((num.log2 : Int) - den.log2 - 1) * den
        < 2 ^ ((num.log2 : Int) - den.log2 - 1) * 2 ^ ((den.log2 : Int) + 1) := by gcongr
      _ = 2 ^ (num.log2 : Int) := by
          rw [← zpow_add₀ two_ne_zero]
          congr 1
          omega
      _ ≤ num := hnum₁
  · rw [div_lt_iff₀ hpos]
    calc (num : ℚ) < 2 ^ ((num.log2 : Int) + 1) := hnum₂
      _ = 2 ^ ((num.log2 : Int) - den.log2 + 1) * 2 ^ (den.log2 : Int) := by
          rw [← zpow_add₀ two_ne_zero]
          congr 1
          omega
      _ ≤ 2 ^ ((num.log2 : Int) - den.log2 + 1) * den := by gcongr

/-- The exponent leaves less than two to the power 53, and at least half of that unless it is the
least one. -/
theorem exponentFor_spec {num den : Nat} (hnum : 0 < num) (hden : 0 < den) :
    leastExponent ≤ exponentFor num den ∧
      (num : ℚ) / den < 2 ^ (exponentFor num den + 53) ∧
      (exponentFor num den = leastExponent ∨
        (2 : ℚ) ^ (exponentFor num den + 52) ≤ num / den) := by
  obtain ⟨hlow, hhigh⟩ := log2_bounds hnum hden
  dsimp only [exponentFor]
  generalize hguess : max ((num.log2 : Int) - den.log2 - 53) leastExponent = guess
  have hpow : (0 : ℚ) < 2 ^ guess := by positivity
  -- The guess is too small by one just if the scaled number has a bit too many.
  have hscaled : 2 * fractionSize ≤ (scaleDown num den guess).1 / (scaleDown num den guess).2 ↔
      (2 : ℚ) ^ (guess + 53) ≤ num / den := by
    have hpos := scaleDown_den_pos num hden guess
    have hposQ : (0 : ℚ) < (scaleDown num den guess).2 := by exact_mod_cast hpos
    rw [Nat.le_div_iff_mul_le hpos, zpow_add₀ two_ne_zero, ← le_div_iff₀' hpow,
      ← scaleDown_value, le_div_iff₀ hposQ, fractionSize_eq]
    norm_cast
  split
  · next hlarge =>
    rw [hscaled] at hlarge
    refine ⟨by omega, hhigh.trans_le ?_, .inr ?_⟩
    · exact zpow_le_zpow_right₀ one_le_two (by omega)
    · rwa [add_assoc]
  · next hsmall =>
    rw [hscaled, not_le] at hsmall
    refine ⟨by omega, hsmall, ?_⟩
    rcases max_choice ((num.log2 : Int) - den.log2 - 53) leastExponent with hmax | hmax
    · right
      refine le_trans (zpow_le_zpow_right₀ one_le_two ?_) hlow.le
      omega
    · exact .inl (hguess ▸ hmax)

/-- No other exponent does. -/
theorem exponentFor_eq {num den : Nat} {e : Int} (hnum : 0 < num) (hden : 0 < den)
    (hleast : leastExponent ≤ e) (hhigh : (num : ℚ) / den < 2 ^ (e + 53))
    (hlow : e = leastExponent ∨ (2 : ℚ) ^ (e + 52) ≤ num / den) : exponentFor num den = e := by
  obtain ⟨hleast', hhigh', hlow'⟩ := exponentFor_spec hnum hden
  generalize exponentFor num den = q at *
  rcases lt_trichotomy q e with hlt | heq | hgt
  · rcases hlow with hlow | hlow
    · omega
    · have := (zpow_lt_zpow_iff_right₀ one_lt_two).mp (hlow.trans_lt hhigh')
      omega
  · exact heq
  · rcases hlow' with hlow' | hlow'
    · omega
    · have := (zpow_lt_zpow_iff_right₀ one_lt_two).mp (hlow'.trans_lt hhigh)
      omega

/-! ## The nearest word -/

/-- At the right exponent, a fraction nearest to a whole number has the word of that number. -/
theorem nearestBits_eq {num den n : Nat} (hnum : 0 < num) (hden : 0 < den) {e : Int} {t : ℚ}
    (he : exponentFor num den = e) (ht : (num : ℚ) / den / 2 ^ e = t) (hlow : (n : ℚ) - 1 / 2 ≤ t)
    (hhigh : t ≤ n + 1 / 2) (htie : n % 2 = 0 ∨ (n : ℚ) - 1 / 2 < t ∧ t < n + 1 / 2) :
    nearestBits num den = min (magnitudeBits n e) infinityBits := by
  rw [nearestBits, if_neg (Nat.ne_of_gt hnum), he, magnitudeBits]
  have hpos := scaleDown_den_pos num hden e
  have hposQ : (0 : ℚ) < (scaleDown num den e).2 := by exact_mod_cast hpos
  rw [← scaleDown_value] at ht
  dsimp only
  generalize (scaleDown num den e).1 = a at *
  generalize (scaleDown num den e).2 = b at *
  subst ht
  -- Clear the denominator.
  rw [le_div_iff₀ hposQ] at hlow
  rw [div_le_iff₀ hposQ] at hhigh
  rw [lt_div_iff₀ hposQ, div_lt_iff₀ hposQ] at htie
  have hlow : 2 * ((b : ℚ) * n) ≤ 2 * a + b := by linarith
  have hhigh : 2 * (a : ℚ) ≤ 2 * (b * n) + b := by linarith
  have htie : n % 2 = 0 ∨ 2 * ((b : ℚ) * n) < 2 * a + b ∧ 2 * (a : ℚ) < 2 * (b * n) + b :=
    htie.imp_right fun h => ⟨by linarith [h.1], by linarith [h.2]⟩
  rw [roundHalfEven_eq (by exact_mod_cast hlow) (by exact_mod_cast hhigh)
    (by exact_mod_cast htie) hpos]

end Binary64

namespace Decimal

open Binary64

/-- A number, in quarters of the last bit, lies in a basin. -/
def Basin.Contains (b : Basin) (x : ℚ) : Prop :=
  if b.closed then b.low ≤ x ∧ x ≤ b.high else b.low < x ∧ x < b.high

/-- A basin reaches half a bit to both sides, and the ends belong to it only if the mantissa is
even. -/
theorem Basin.Contains.units {m : Nat} {e : Int} (hm : 0 < m) {t : ℚ}
    (h : (basin m e).Contains (4 * t)) :
    (m : ℚ) - 1 / 2 ≤ t ∧ t ≤ m + 1 / 2 ∧
      (m % 2 = 0 ∨ (m : ℚ) - 1 / 2 < t ∧ t < m + 1 / 2) := by
  have hlow : (4 * m - 2 : ℚ) ≤ (basin m e).low := by
    have hle : 4 * m ≤ (basin m e).low + 2 := by
      dsimp only [basin]
      split <;> omega
    have hcast : (4 * m : ℚ) ≤ (basin m e).low + 2 := by exact_mod_cast hle
    linarith
  have hhigh : ((basin m e).high : ℚ) = 4 * m + 2 := by
    rw [basin]
    push_cast
    rfl
  unfold Basin.Contains at h
  rw [hhigh] at h
  split at h
  · next hclosed => exact ⟨by linarith [h.1], by linarith [h.2], .inl (of_decide_eq_true hclosed)⟩
  · exact ⟨by linarith [h.1], by linarith [h.2], .inr ⟨by linarith [h.1], by linarith [h.2]⟩⟩

/-- Below a power of two a basin reaches only a quarter of a bit to the left. -/
theorem Basin.Contains.narrow {e : Int} (he : leastExponent < e) {t : ℚ}
    (h : (basin fractionSize e).Contains (4 * t)) : (fractionSize : ℚ) - 1 / 4 ≤ t := by
  have hlow : ((basin fractionSize e).low : ℚ) = 4 * fractionSize - 1 := by
    rw [basin, if_pos ⟨rfl, he⟩, Nat.cast_sub (by decide)]
    push_cast
    rfl
  unfold Basin.Contains at h
  rw [hlow] at h
  split at h
  · linarith [h.1]
  · linarith [h.1]

/-- A number in quarters of a bit. -/
theorem div_quarter (x : ℚ) (e : Int) : x / 2 ^ (e - 2) = 4 * (x / 2 ^ e) := by
  rw [zpow_sub₀ two_ne_zero]
  field_simp
  norm_num

end Decimal

namespace Binary64

open Decimal

/-- Just below a power of two the exponent is smaller by one, and rounding goes up to the power. -/
theorem nearestBits_below {num den : Nat} {e : Int} (hnum : 0 < num) (hden : 0 < den)
    (he : leastExponent < e) (hnormal : Normal fractionSize e) {t : ℚ}
    (hvalue : (num : ℚ) / den = t * 2 ^ e) (hlow : (fractionSize : ℚ) - 1 / 4 ≤ t)
    (hhigh : t < fractionSize) : nearestBits num den = magnitudeBits fractionSize e := by
  have hsize : (fractionSize : ℚ) = 2 ^ 52 := by
    rw [fractionSize_eq]
    norm_num
  rw [hsize] at hlow hhigh
  have hexp : exponentFor num den = e - 1 := by
    refine exponentFor_eq hnum hden (by omega) ?_ (.inr ?_)
    · rw [hvalue, show e - 1 + 53 = 52 + e by omega, zpow_add₀ two_ne_zero]
      gcongr
      exact_mod_cast hhigh
    · rw [hvalue, show e - 1 + 52 = 51 + e by omega, zpow_add₀ two_ne_zero]
      gcongr
      norm_num at hlow ⊢
      linarith
  have hdouble : (num : ℚ) / den / 2 ^ (e - 1) = 2 * t := by
    rw [hvalue, zpow_sub₀ two_ne_zero]
    field_simp
  have hword : magnitudeBits (2 * fractionSize) (e - 1) = magnitudeBits fractionSize e := by
    rw [magnitudeBits, magnitudeBits, fractionSize_eq]
    omega
  have hcast : ((2 * fractionSize : Nat) : ℚ) = 2 * 2 ^ 52 := by
    rw [Nat.cast_mul, hsize, Nat.cast_ofNat]
  rw [nearestBits_eq (n := 2 * fractionSize) hnum hden hexp hdouble (by rw [hcast]; linarith)
    (by rw [hcast]; linarith) (.inl (by decide)), hword, min_eq_left hnormal.magnitudeBits_lt.le]

/-- A fraction in the basin of a number has its word as the nearest one. -/
theorem nearestBits_of_contains {num den m : Nat} {e : Int} (hden : 0 < den) (hm : 0 < m)
    (hnormal : Normal m e) (h : (basin m e).Contains (num / den / 2 ^ (e - 2))) :
    nearestBits num den = magnitudeBits m e := by
  obtain ⟨t, ht⟩ : ∃ t : ℚ, (num : ℚ) / den / 2 ^ e = t := ⟨_, rfl⟩
  have hvalue : (num : ℚ) / den = t * 2 ^ e := by
    rw [← ht]
    field_simp
  rw [div_quarter, ht] at h
  obtain ⟨hlow, hhigh, htie⟩ := h.units hm
  -- Zero lies in the basin of no positive mantissa.
  have hnum : 0 < num := by
    refine Nat.pos_of_ne_zero ?_
    rintro rfl
    have hone : (1 : ℚ) ≤ m := by exact_mod_cast hm
    rw [Nat.cast_zero, zero_div, zero_div] at ht
    linarith
  have hfits : (num : ℚ) / den < 2 ^ (e + 53) := by
    have hbits : (m : ℚ) + 1 ≤ 2 ^ 53 := by
      have hlt : m < 2 ^ 53 := hnormal.lt
      exact_mod_cast hlt
    rw [hvalue, add_comm, zpow_add₀ two_ne_zero]
    gcongr
    norm_num at hbits ⊢
    linarith
  by_cases hlead : e = leastExponent ∨ (2 : ℚ) ^ (e + 52) ≤ num / den
  · have hexp := exponentFor_eq hnum hden hnormal.least_le hfits hlead
    rw [nearestBits_eq hnum hden hexp ht hlow hhigh htie,
      min_eq_left hnormal.magnitudeBits_lt.le]
  · -- Without its leading bit the fraction is just below the least mantissa that has one.
    obtain ⟨hleast, hsmall⟩ := not_or.mp hlead
    have he := lt_of_le_of_ne hnormal.least_le (Ne.symm hleast)
    have hlt : t < fractionSize := by
      rw [hvalue, add_comm, zpow_add₀ two_ne_zero, not_le] at hsmall
      exact_mod_cast lt_of_mul_lt_mul_right hsmall (by positivity)
    obtain rfl : m = fractionSize := by
      have hle : (m : ℚ) < fractionSize + 1 := by linarith
      have hge := hnormal.leading.resolve_right hleast
      norm_cast at hle
      omega
    exact nearestBits_below hnum hden he hnormal hvalue (h.narrow he) hlt

end Binary64

end Scriptlet
