import Scriptlet.Machine.Value
import Scriptlet.Proofs.FloatWords

/-!
# Integers as floating point values

An integer becomes the floating point value nearest to it, and that is a value of its own:
`Binary64.roundInt` keeps 53 significant bits of an integer, with ties to the even mantissa, and two
integers become equal floating point values if and only if they are rounded to the same integer
(`Value.nearestFloat_beq`).

A mantissa is rounded by the bit behind it and by whether there are others behind that bit; the two
tell how the remainder of a division by a power of two compares with half of the divisor
(`Binary64.Truncates`).
-/

namespace Scriptlet

namespace Binary64

open Float.Model Float.Model.UnpackedFloat

/-! ## Rounding to 53 bits -/

/-- The number with 53 significant bits nearest to a natural number; a tie goes to the even
mantissa. -/
def roundNat (n : Nat) : Nat :=
  let unit := 2 ^ (n.log2 - 52)
  roundHalfEven n unit * unit

/-- The number with 53 significant bits nearest to an integer; a tie goes to the even mantissa. -/
def roundInt (n : Int) : Int := n.sign * roundNat n.natAbs

/-- A divided number with the two bits that it is rounded by. -/
structure Truncates (em : ExtendedMantissa) (n d : Nat) : Prop where
  mantissa : em.mantissa = n / d
  roundBit : em.roundBit = true ↔ d ≤ 2 * (n % d)
  stickyBit : em.stickyBit = true ↔ 2 * (n % d) % d ≠ 0

/-- Nothing is behind a whole number. -/
theorem truncates_one (n : Nat) :
    Truncates (ExtendedMantissa.ofMantissaAndAccuracy n .exact) n 1 := by
  refine ⟨(Nat.div_one n).symm, ?_, ?_⟩
  · simp [ExtendedMantissa.ofMantissaAndAccuracy, Nat.mod_one]
  · simp [ExtendedMantissa.ofMantissaAndAccuracy, Nat.mod_one]

theorem Truncates.shiftRightOne {em : ExtendedMantissa} {n d : Nat} (hd : 0 < d)
    (h : Truncates em n d) : Truncates em.shiftRightOne n (d * 2) := by
  have hrest : n % (d * 2) = n % d + d * (n / d % 2) := Nat.mod_mul
  have hlt : n % d < d := Nat.mod_lt n hd
  refine ⟨?_, ?_, ?_⟩
  · rw [ExtendedMantissa.shiftRightOne, h.mantissa, Nat.div_div_eq_div_mul]
  · rw [ExtendedMantissa.shiftRightOne, h.mantissa, hrest, bne_iff_ne]
    rcases Nat.mod_two_eq_zero_or_one (n / d) with hbit | hbit <;> rw [hbit] <;> omega
  · -- both sides say that something is left of the number
    have hsticky : 2 * (n % (d * 2)) % (d * 2) = 2 * (n % d) := by
      rw [hrest, Nat.mul_add, show 2 * (d * (n / d % 2)) = d * 2 * (n / d % 2) by ring,
        Nat.add_mul_mod_self_left, Nat.mod_eq_of_lt (by omega)]
    rw [ExtendedMantissa.shiftRightOne, Bool.or_eq_true, h.roundBit, h.stickyBit, hsticky]
    by_cases hle : d ≤ 2 * (n % d)
    · exact iff_of_true (.inl hle) (by omega)
    · rw [Nat.mod_eq_of_lt (Nat.lt_of_not_le hle)]
      exact or_iff_right hle

theorem truncates_shiftRight (n k : Nat) :
    Truncates (ExtendedMantissa.ofMantissaAndAccuracy n .exact >>> k) n (2 ^ k) := by
  induction k with
  | zero => exact truncates_one n
  | succ k ih =>
    rw [Nat.pow_succ]
    exact ih.shiftRightOne (Nat.two_pow_pos k)

/-- The two bits round to the nearest number, and in a tie to the even one. -/
theorem Truncates.roundedMantissa {em : ExtendedMantissa} {n d : Nat} (hd : 0 < d)
    (h : Truncates em n d) : em.roundedMantissa = roundHalfEven n d := by
  obtain ⟨mantissa, roundBit, stickyBit⟩ := em
  obtain ⟨hmantissa, hround, hsticky⟩ := h
  dsimp only at hmantissa hround hsticky
  have hlt : n % d < d := Nat.mod_lt n hd
  -- With the round bit set and the sticky bit clear, the rest is exactly one half.
  have htie : 2 * (n % d) % d = 0 → d ≤ 2 * (n % d) → 2 * (n % d) = d := by
    intro hzero hle
    rw [Nat.mod_eq_sub_mod hle, Nat.mod_eq_of_lt (by omega)] at hzero
    omega
  rw [ExtendedMantissa.roundedMantissa, roundHalfEven, hmantissa]
  dsimp only
  cases roundBit with
  | false =>
    have hbelow : 2 * (n % d) < d := Nat.lt_of_not_le fun hle => Bool.false_ne_true (hround.2 hle)
    rw [if_pos hbelow]
    cases stickyBit <;> rfl
  | true =>
    have hle : d ≤ 2 * (n % d) := hround.1 rfl
    rw [if_neg (Nat.not_lt.2 hle)]
    cases stickyBit with
    | false =>
      have hzero : 2 * (n % d) % d = 0 := by
        by_contra hne
        exact Bool.false_ne_true (hsticky.2 hne)
      rw [if_neg (Nat.not_lt.2 (Nat.le_of_eq (htie hzero hle)))]
      show n / d + n / d % 2 = _
      split <;> omega
    | true =>
      have hne : 2 * (n % d) ≠ d := fun heq => hsticky.1 rfl (by rw [heq, Nat.mod_self])
      rw [if_pos (by omega)]
      rfl

/-! ## Integers in the floating point format -/

/-- The exponent at which a number has a mantissa of 53 bits. -/
theorem targetExponent_eq {m : Nat} {e : Int} (h : -1022 ≤ m.log2 + e) :
    Format.binary64.targetExponent (totalExponent m e) = m.log2 + e - 52 := by
  rw [Format.targetExponent, totalExponent]
  show max ((m.log2 : Int) + 1 + e - (53 : Nat)) (-1074) = _
  omega

/-- A mantissa of 53 bits stays as it is. -/
theorem shiftToTargetExponent_of_leading {m : Nat} {e : Int} (hlow : 2 ^ 52 ≤ m)
    (hhigh : m < 2 ^ 53) (he : -1074 ≤ e) : shiftToTargetExponent Format.binary64 m e .exact =
      (ExtendedMantissa.ofMantissaAndAccuracy m .exact, e) := by
  have hlog : m.log2 = 52 := by
    have hle := (Nat.le_log2 (by omega)).2 hlow
    have hlt := (Nat.log2_lt (by omega)).2 hhigh
    omega
  have htarget : Format.binary64.targetExponent (totalExponent m e) = e := by
    rw [targetExponent_eq (by omega), hlog]
    omega
  rw [shiftToTargetExponent, htarget, shiftToExponent, Int.sub_self, Int.toNat_zero,
    Int.natCast_zero, Int.add_zero]
  rfl

/-- A value has a sign, a mantissa of 53 bits and an exponent, and they give a whole number. -/
def StandsFor (sign : Sign) (x : UnpackedFloat) (n : Nat) : Prop :=
  ∃ (m k : Nat) (e : Int) (hm : 0 < m), x = .finite sign m e hm ∧ e + 52 = k ∧ k ≤ 64 ∧
    2 ^ 52 ≤ m ∧ m < 2 ^ 53 ∧ m * 2 ^ k = n * 2 ^ 52

/-- A number is brought to its exponent, rounded, and brought to its exponent again. -/
theorem roundWithAccuracy_eq {sign : Sign} {m r : Nat} {e e₁ e₂ : Int} {em em' : ExtendedMantissa}
    (hfirst : shiftToTargetExponent Format.binary64 m e .exact = (em, e₁))
    (hrounded : em.roundedMantissa = r)
    (hsecond : shiftToTargetExponent Format.binary64 r e₁ .exact = (em', e₂))
    (hpos : 0 < em'.mantissa) :
    roundWithAccuracy Format.binary64 sign m e .exact = .finite sign em'.mantissa e₂ hpos := by
  rw [roundWithAccuracy, hfirst]
  dsimp only
  rw [hrounded, hsecond]
  exact dif_neg (Nat.ne_of_gt hpos)

theorem two_pow_mul_bounds {n a b : Nat} (hpos : 0 < n) (hab : n.log2 + a = b) :
    2 ^ b ≤ n * 2 ^ a ∧ n * 2 ^ a < 2 ^ (b + 1) := by
  have hlow := Nat.log2_self_le (Nat.ne_of_gt hpos)
  have hhigh := @Nat.lt_log2_self n
  constructor
  · rw [← hab, Nat.pow_add]
    exact Nat.mul_le_mul_right _ hlow
  · rw [← hab, Nat.add_right_comm, Nat.pow_add]
    exact Nat.mul_lt_mul_of_pos_right hhigh (Nat.two_pow_pos a)

theorem roundNat_of_small {n : Nat} (hlog : n.log2 ≤ 52) : roundNat n = n := by
  have hunit : n.log2 - 52 = 0 := Nat.sub_eq_zero_of_le hlog
  rw [roundNat, hunit]
  simp [roundHalfEven, Nat.mod_one]

/-- Up to two to the power 53, nothing is rounded. -/
theorem roundInt_of_le {n : Int} (h : n.natAbs ≤ 2 ^ 53) : roundInt n = n := by
  have hnat : roundNat n.natAbs = n.natAbs := by
    rcases Nat.lt_or_eq_of_le h with hlt | heq
    · by_cases hzero : n.natAbs = 0
      · rw [hzero]
        rfl
      · exact roundNat_of_small (Nat.le_of_lt_succ ((Nat.log2_lt hzero).2 hlt))
    · rw [heq]
      decide +kernel
  rw [roundInt, hnat, Int.sign_mul_natAbs]

/-- A number of at most 53 bits is not rounded. -/
theorem standsFor_round_small {n : Nat} (hpos : 0 < n) (hlog : n.log2 ≤ 52) :
    StandsFor .positive (UnpackedFloat.round Format.binary64 .positive n 0) (roundNat n) := by
  obtain ⟨hlow, hhigh⟩ := @two_pow_mul_bounds n (52 - n.log2) 52 hpos (by omega)
  have hshift : ((0 : Int) - (n.log2 + 0 - 52)).toNat = 52 - n.log2 := by omega
  have hround : UnpackedFloat.round Format.binary64 .positive n 0 =
      .finite .positive (n * 2 ^ (52 - n.log2)) ((n.log2 : Int) - 52) (by omega) := by
    rw [UnpackedFloat.round, targetExponent_eq (by omega), decreaseExponent, hshift]
    dsimp only
    rw [Nat.shiftLeft_eq, show (0 : Int) - (52 - n.log2 : Nat) = (n.log2 : Int) - 52 by omega]
    have hstays := shiftToTargetExponent_of_leading hlow hhigh
      (show -1074 ≤ (n.log2 : Int) - 52 by omega)
    exact roundWithAccuracy_eq hstays rfl hstays _
  refine ⟨_, n.log2, _, _, hround, by omega, by omega, hlow, hhigh, ?_⟩
  rw [roundNat_of_small hlog, Nat.mul_assoc, ← Nat.pow_add, Nat.sub_add_cancel hlog]

theorem roundHalfEven_bounds (n d : Nat) :
    n / d ≤ roundHalfEven n d ∧ roundHalfEven n d ≤ n / d + 1 := by
  rw [roundHalfEven]
  split
  · omega
  · split
    · omega
    · split <;> omega

/-- A number rounded to 53 bits has them, or is the power of two above. -/
theorem roundHalfEven_two_pow_bounds {n k : Nat} (hpos : 0 < n) (hlog : n.log2 = 52 + k) :
    2 ^ 52 ≤ roundHalfEven n (2 ^ k) ∧ roundHalfEven n (2 ^ k) ≤ 2 ^ 53 := by
  obtain ⟨hlow, hhigh⟩ := roundHalfEven_bounds n (2 ^ k)
  have hle : 2 ^ 52 ≤ n / 2 ^ k := by
    rw [Nat.le_div_iff_mul_le (Nat.two_pow_pos k), ← Nat.pow_add, ← hlog]
    exact Nat.log2_self_le (Nat.ne_of_gt hpos)
  have hlt : n / 2 ^ k < 2 ^ 53 := by
    rw [Nat.div_lt_iff_lt_mul (Nat.two_pow_pos k), ← Nat.pow_add,
      show 53 + k = n.log2 + 1 by omega]
    exact Nat.lt_log2_self
  omega

/-- A larger number is rounded once; if that gives a further bit, it is a power of two. -/
theorem standsFor_round_large {n : Nat} (hlog : 52 < n.log2) (hlt : n < 2 ^ 64) :
    StandsFor .positive (UnpackedFloat.round Format.binary64 .positive n 0) (roundNat n) := by
  have hpos : 0 < n := Nat.pos_of_ne_zero (by rintro rfl; simp at hlog)
  have hsize : n.log2 < 64 := (Nat.log2_lt (Nat.ne_of_gt hpos)).2 hlt
  obtain ⟨k, hk⟩ : ∃ k, n.log2 = 52 + k := ⟨n.log2 - 52, by omega⟩
  have htarget : Format.binary64.targetExponent (totalExponent n 0) = k := by
    rw [targetExponent_eq (by omega), hk]
    omega
  have hshift : ((0 : Int) - k).toNat = 0 := by omega
  have hfirst : shiftToTargetExponent Format.binary64 n 0 .exact =
      (ExtendedMantissa.ofMantissaAndAccuracy n .exact >>> k, (k : Int)) := by
    rw [shiftToTargetExponent, htarget, shiftToExponent, Int.sub_zero, Int.toNat_natCast,
      Int.zero_add]
  -- the number is rounded to 53 bits, or to the power of two above them
  have hrounded := (truncates_shiftRight n k).roundedMantissa (Nat.two_pow_pos k)
  obtain ⟨hlow, hhigh⟩ := roundHalfEven_two_pow_bounds hpos hk
  have hround : UnpackedFloat.round Format.binary64 .positive n 0 =
      roundWithAccuracy Format.binary64 .positive n 0 .exact := by
    rw [UnpackedFloat.round, htarget, decreaseExponent, hshift]
    rfl
  have hvalue : roundNat n = roundHalfEven n (2 ^ k) * 2 ^ k := by
    rw [roundNat, hk, Nat.add_sub_cancel_left]
  rw [hround, hvalue]
  rcases Nat.lt_or_eq_of_le hhigh with hlt | heq
  · have hsecond := shiftToTargetExponent_of_leading hlow hlt (show -1074 ≤ (k : Int) by omega)
    rw [roundWithAccuracy_eq hfirst hrounded hsecond (show 0 < roundHalfEven n (2 ^ k) by omega)]
    refine ⟨_, k + 52, _, _, rfl, by omega, by omega, hlow, hlt, ?_⟩
    rw [Nat.pow_add, Nat.mul_assoc]
    rfl
  · have hsecond : shiftToTargetExponent Format.binary64 (2 ^ 53) k .exact =
        (ExtendedMantissa.ofMantissaAndAccuracy (2 ^ 53) .exact >>> 1, (k : Int) + 1) := by
      have hshift : (((2 ^ 53 : Nat).log2 : Int) + k - 52 - k).toNat = 1 := by
        rw [show (2 ^ 53 : Nat).log2 = 53 from Nat.log2_two_pow]
        omega
      rw [shiftToTargetExponent, targetExponent_eq (by omega), shiftToExponent, hshift]
      rfl
    rw [roundWithAccuracy_eq hfirst (hrounded.trans heq) hsecond (by decide), heq]
    refine ⟨_, k + 53, _, _, rfl, by omega, by omega, by decide, by decide, ?_⟩
    show 2 ^ 53 / 2 * 2 ^ (k + 53) = 2 ^ 53 * 2 ^ k * 2 ^ 52
    rw [Nat.pow_add]
    omega

theorem standsFor_round {n : Nat} (hpos : 0 < n) (hlt : n < 2 ^ 64) :
    StandsFor .positive (UnpackedFloat.round Format.binary64 .positive n 0) (roundNat n) := by
  rcases Nat.lt_or_ge 52 n.log2 with hlog | hlog
  · exact standsFor_round_large hlog hlt
  · exact standsFor_round_small hpos hlog

/-- Other signs stand for the same number. -/
theorem StandsFor.neg {sign : Sign} {x : UnpackedFloat} {n : Nat} (h : StandsFor sign x n) :
    StandsFor (-sign) x.neg n := by
  obtain ⟨m, k, e, hm, rfl, h⟩ := h
  exact ⟨m, k, e, hm, rfl, h⟩

/-! ## Words of rounded integers -/

theorem ofBitVec_unpackSign (sign : Sign) (e : BitVec 11) (m : BitVec 52) :
    Sign.ofBitVec (@unpackSign Format.binary64 (packComponents Format.binary64 sign e m)) =
      sign := by
  have hbits : @unpackSign Format.binary64 (packComponents Format.binary64 sign e m) =
      sign.toBitVec := by
    refine BitVec.eq_of_getLsbD_eq fun i hi => ?_
    obtain rfl : i = 0 := by omega
    rw [packComponents, unpackSign, BitVec.getLsbD_cast, BitVec.getLsbD_extractLsb,
      BitVec.getLsbD_append, BitVec.getLsbD_append]
    rfl
  rw [hbits]
  cases sign <;> rfl

/-- A mantissa of 53 bits is its leading bit before the others. -/
theorem toNat_leading {m : Nat} (hlow : 2 ^ 52 ≤ m) (hhigh : m < 2 ^ 53) :
    (1#1 ++ BitVec.ofNat 52 m).toNat = m := by
  rw [BitVec.toNat_append, BitVec.toNat_ofNat, BitVec.toNat_ofNat,
    ← Nat.shiftLeft_add_eq_or_of_lt (Nat.mod_lt _ (by decide)), Nat.shiftLeft_eq]
  omega

/-- A whole number that a value stands for is kept in its word. -/
theorem StandsFor.unpack_pack {sign : Sign} {x : UnpackedFloat} {n : Nat} (h : StandsFor sign x n) :
    UnpackedFloat.unpack Format.binary64 (UnpackedFloat.pack Format.binary64 x) = x := by
  obtain ⟨m, k, e, hm, rfl, he, hk, hlow, hhigh, -⟩ := h
  have hmantissa := toNat_leading hlow hhigh
  have hfield : (BitVec.ofNat 11 (k + 1023)).toNat = k + 1023 := by
    rw [BitVec.toNat_ofNat]
    omega
  have hones : BitVec.ofNat 11 (k + 1023) ≠ -1#11 := fun heq => by
    have hnat : k + 1023 = 2047 := hfield.symm.trans (congrArg BitVec.toNat heq)
    omega
  have hzero : BitVec.ofNat 11 (k + 1023) ≠ 0#11 := fun heq => by
    have hnat : k + 1023 = 0 := hfield.symm.trans (congrArg BitVec.toNat heq)
    omega
  have hexponent : ((BitVec.ofNat 11 (k + 1023)).toNat : Int) - 1075 = e := by
    rw [hfield]
    omega
  have hpack := pack_leading sign (BitVec.ofNat 11 (k + 1023)) hones (BitVec.ofNat 52 m)
    (by rw [hmantissa]; exact hm)
  simp only [hmantissa, hexponent] at hpack
  rw [hpack, UnpackedFloat.unpack]
  simp only [unpackMantissa_packComponents, unpackExponent_packComponents, ofBitVec_unpackSign]
  rw [if_neg hones, if_neg hzero]
  simp only [hmantissa]
  exact congrArg (fun e => UnpackedFloat.finite sign m e hm) hexponent

/-- Mantissas of 53 bits with a power of two are different numbers. -/
theorem leading_unique {m m' k k' : Nat} (hlow : 2 ^ 52 ≤ m) (hhigh : m < 2 ^ 53)
    (hlow' : 2 ^ 52 ≤ m') (hhigh' : m' < 2 ^ 53) (h : m * 2 ^ k = m' * 2 ^ k') :
    m = m' ∧ k = k' := by
  have hlt {m m' k k' : Nat} (hhigh : m < 2 ^ 53) (hlow' : 2 ^ 52 ≤ m') (hk : k < k') :
      m * 2 ^ k < m' * 2 ^ k' :=
    calc m * 2 ^ k < 2 ^ 53 * 2 ^ k := Nat.mul_lt_mul_of_pos_right hhigh (Nat.two_pow_pos k)
      _ = 2 ^ 52 * 2 ^ (k + 1) := by rw [Nat.pow_succ 2 k]; omega
      _ ≤ m' * 2 ^ k' := Nat.mul_le_mul hlow' (Nat.pow_le_pow_right Nat.two_pos hk)
  rcases Nat.lt_trichotomy k k' with hk | rfl | hk
  · exact absurd h (Nat.ne_of_lt (hlt hhigh hlow' hk))
  · exact ⟨Nat.eq_of_mul_eq_mul_right (Nat.two_pow_pos k) h, rfl⟩
  · exact absurd h.symm (Nat.ne_of_lt (hlt hhigh' hlow hk))

/-- Values that stand for whole numbers are equal if their signs and the numbers are. -/
theorem StandsFor.beq_iff {sign sign' : Sign} {x y : UnpackedFloat} {n n' : Nat}
    (h : StandsFor sign x n) (h' : StandsFor sign' y n') :
    x.beq y = true ↔ sign = sign' ∧ n = n' := by
  obtain ⟨m, k, e, hm, rfl, he, -, hlow, hhigh, hn⟩ := h
  obtain ⟨m', k', e', hm', rfl, he', -, hlow', hhigh', hn'⟩ := h'
  have hsame : e = e' ∧ m = m' ↔ n = n' := by
    constructor
    · rintro ⟨rfl, rfl⟩
      obtain rfl : k = k' := by omega
      exact Nat.eq_of_mul_eq_mul_right (Nat.two_pow_pos 52) (hn.symm.trans hn')
    · rintro rfl
      obtain ⟨rfl, rfl⟩ := leading_unique hlow hhigh hlow' hhigh' (hn.trans hn'.symm)
      exact ⟨by omega, rfl⟩
  rw [UnpackedFloat.beq, beq_iff_eq, ← hsame]
  cases sign <;> cases sign' <;>
    simp [UnpackedFloat.compare, Ordering.then_eq_eq]

theorem StandsFor.pos {sign : Sign} {x : UnpackedFloat} {n : Nat} (h : StandsFor sign x n) :
    0 < n := by
  obtain ⟨m, k, e, hm, -, -, -, -, -, hn⟩ := h
  have hprod : 0 < m * 2 ^ k := Nat.mul_pos hm (Nat.two_pow_pos k)
  rw [hn] at hprod
  exact Nat.pos_of_mul_pos_right hprod

/-! ## Integers as values -/

/-- A value has the sign and the size of an integer. -/
inductive Means : UnpackedFloat → Int → Prop
  | zero (sign : Sign) : Means (.zero sign) 0
  | positive {x : UnpackedFloat} {n : Nat} (h : StandsFor .positive x n) : Means x n
  | negative {x : UnpackedFloat} {n : Nat} (h : StandsFor .negative x n) : Means x (-n)

/-- Values of integers are equal if the integers are. -/
theorem Means.beq_iff {x y : UnpackedFloat} {v w : Int} (hx : Means x v) (hy : Means y w) :
    x.beq y = true ↔ v = w := by
  have hzero {sign sign' : Sign} {x : UnpackedFloat} {n : Nat} (h : StandsFor sign x n) :
      (UnpackedFloat.zero sign').beq x ≠ true ∧ x.beq (.zero sign') ≠ true := by
    obtain ⟨m, k, e, hm, rfl, -⟩ := h
    cases sign <;> exact ⟨Bool.false_ne_true, Bool.false_ne_true⟩
  cases hx with
  | zero sign =>
    cases hy with
    | zero sign' => exact iff_of_true rfl rfl
    | positive hy => exact iff_of_false (hzero hy).1 (by have := hy.pos; omega)
    | negative hy => exact iff_of_false (hzero hy).1 (by have := hy.pos; omega)
  | positive hx =>
    have hpos := hx.pos
    cases hy with
    | zero sign' => exact iff_of_false (hzero hx).2 (by omega)
    | positive hy => rw [hx.beq_iff hy, Int.natCast_inj, and_iff_right rfl]
    | negative hy => exact iff_of_false (fun h => nomatch ((hx.beq_iff hy).1 h).1) (by omega)
  | negative hx =>
    have hpos := hx.pos
    cases hy with
    | zero sign' => exact iff_of_false (hzero hx).2 (by omega)
    | positive hy => exact iff_of_false (fun h => nomatch ((hx.beq_iff hy).1 h).1) (by omega)
    | negative hy => rw [hx.beq_iff hy, Int.neg_inj, Int.natCast_inj, and_iff_right rfl]

/-- A positive number of 64 bits becomes the value nearest to it. -/
theorem standsFor_toFloat {n : UInt64} (hpos : 0 < n.toNat) :
    StandsFor .positive n.toFloat.toModel.unpack (roundNat n.toNat) := by
  have hround : UnpackedFloat.ofNat Format.binary64 n.toNat =
      UnpackedFloat.round Format.binary64 .positive n.toNat 0 := by
    have hgt : compare (n.toNat : Int) 0 = .gt := compare_gt_iff_gt.2 (by omega)
    rw [UnpackedFloat.ofNat, UnpackedFloat.ofInt, UnpackedFloat.normalize, hgt]
    rfl
  have hstands := standsFor_round hpos n.toNat_lt
  show StandsFor .positive (UnpackedFloat.unpack Format.binary64 (UnpackedFloat.pack Format.binary64
    (UnpackedFloat.ofNat Format.binary64 n.toNat))) _
  rwa [hround, hstands.unpack_pack]

end Binary64

namespace Value

open Float.Model Binary64

/-- An integer becomes a floating point value of the rounded integer. -/
theorem means_nearestFloat (n : Int64) :
    Means (nearestFloat n).toModel.unpack (roundInt n.toInt) := by
  have hbound : n.toInt.natAbs < 2 ^ 64 := by
    have hlow := n.le_toInt
    have hhigh := n.toInt_lt
    omega
  have hnat : n.toInt.natAbs.toUInt64.toNat = n.toInt.natAbs :=
    UInt64.toNat_ofNat_of_lt hbound
  rw [nearestFloat, roundInt]
  rcases Int.lt_trichotomy n.toInt 0 with hneg | hzero | hpos
  · have hstands := @standsFor_toFloat n.toInt.natAbs.toUInt64 (by omega)
    rw [if_pos hneg, Int.sign_eq_neg_one_of_neg hneg, Int.neg_one_mul]
    rw [hnat] at hstands
    have hword : (-n.toInt.natAbs.toUInt64.toFloat).toModel.unpack =
        n.toInt.natAbs.toUInt64.toFloat.toModel.unpack.neg := hstands.neg.unpack_pack
    rw [hword]
    exact .negative hstands.neg
  · have hword : (0 : Nat).toUInt64.toFloat.toModel.unpack = .zero .positive := by rfl
    rw [hzero, if_neg (Int.lt_irrefl 0), Int.sign_zero, Int.zero_mul, Int.natAbs_zero, hword]
    exact .zero .positive
  · have hstands := @standsFor_toFloat n.toInt.natAbs.toUInt64 (by omega)
    rw [if_neg (by omega), Int.sign_eq_one_of_pos hpos, Int.one_mul]
    rw [hnat] at hstands
    exact .positive hstands

/-- Integers are equal as floating point values if and only if they are rounded to the same
integer. -/
theorem nearestFloat_beq (a b : Int64) :
    (nearestFloat a == nearestFloat b) = decide (roundInt a.toInt = roundInt b.toInt) := by
  rw [Bool.eq_iff_iff, decide_eq_true_iff]
  exact (means_nearestFloat a).beq_iff (means_nearestFloat b)

end Value

end Scriptlet
