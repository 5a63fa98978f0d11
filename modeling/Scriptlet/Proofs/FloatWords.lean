import Mathlib
import Scriptlet.Decimal.Binary64

/-!
# Words of floating point values

A floating point value is its word, and a finite word is a sign with a mantissa and an exponent in
normal form: the mantissa has its leading bit, or the exponent is the least one.  So the sign and
the word without it build the value again.
-/

namespace Scriptlet.Binary64

open Float.Model Float.Model.UnpackedFloat

/-! ## Values and their words -/

/-- The three fields of a word put together are the word. -/
theorem packComponents_unpack (b : BitVec Format.binary64.numBits) :
    packComponents Format.binary64 (Sign.ofBitVec (unpackSign b)) (unpackExponent b)
      (unpackMantissa b) = b := by
  have hsign : (Sign.ofBitVec (unpackSign b)).toBitVec = unpackSign b := by
    generalize unpackSign b = s
    revert s
    decide
  rw [packComponents, hsign]
  refine BitVec.eq_of_getLsbD_eq fun i hi => ?_
  have hi : i < 64 := hi
  simp only [BitVec.getLsbD_append, unpackMantissa, unpackExponent, unpackSign,
    BitVec.getLsbD_cast, BitVec.getLsbD_extractLsb]
  split
  · rw [decide_eq_true (by omega), Bool.true_and, Nat.zero_add]
  · split
    · rw [decide_eq_true (by omega), Bool.true_and, Nat.add_sub_cancel' (by omega)]
    · rw [decide_eq_true (by omega), Bool.true_and, Nat.sub_sub, Nat.add_sub_cancel' (by omega)]

/-- The finest numbers are packed without an exponent. -/
theorem pack_finest (s : Sign) (m : BitVec 52) (hpos : 0 < m.toNat) :
    UnpackedFloat.pack Format.binary64 (.finite s m.toNat (-1074) hpos) =
      packComponents Format.binary64 s 0#_ m := by
  have hbits : m.toNat.log2 + 1 ≠ Format.binary64.mantissaBits := by
    show m.toNat.log2 + 1 ≠ 53
    have := (Nat.log2_lt (Nat.ne_of_gt hpos)).mpr m.isLt
    omega
  rw [UnpackedFloat.pack, if_neg (by decide), if_neg hbits]
  exact congrArg _ ((m.ofNat_toNat 52).trans m.setWidth_eq)

/-- All other finite numbers are packed without their leading bit. -/
theorem pack_leading (s : Sign) (f : BitVec 11) (hf : f ≠ -1#11) (m : BitVec 52)
    (hpos : 0 < (1#1 ++ m).toNat) :
    UnpackedFloat.pack Format.binary64 (.finite s (1#1 ++ m).toNat (f.toNat - 1075) hpos) =
      packComponents Format.binary64 s f m := by
  have hlt : f.toNat < 2047 := by
    have := f.isLt
    have : f.toNat ≠ 2047 := fun h => hf (BitVec.eq_of_toNat_eq h)
    omega
  have hbiased : ((f.toNat : Int) - 1075 + Format.binary64.exponentBias +
      Format.binary64.mantissaBitsWithoutImplicit).toNat = f.toNat := by
    show ((f.toNat : Int) - 1075 + (1023 : Nat) + (52 : Nat)).toNat = f.toNat
    omega
  -- With its leading bit the mantissa is as long as it can be.
  have hbits : (1#1 ++ m).toNat.log2 + 1 = Format.binary64.mantissaBits := by
    have hlow : 2 ^ 52 ≤ (1#1 ++ m).toNat := by
      rw [BitVec.toNat_append]
      exact Nat.left_le_or
    have hlog := (Nat.log2_lt (Nat.ne_of_gt hpos)).mpr (1#1 ++ m).isLt
    have hle := (Nat.le_log2 (Nat.ne_of_gt hpos)).mpr hlow
    show (1#1 ++ m).toNat.log2 + 1 = 53
    omega
  have hsmall : ¬ 2 ^ Format.binary64.exponentBits ≤ f.toNat + 1 := by
    show ¬ 2048 ≤ f.toNat + 1
    omega
  rw [UnpackedFloat.pack, hbiased, if_neg hsmall, if_pos hbits, BitVec.ofNat_toNat,
    BitVec.ofNat_toNat]
  exact congr (congrArg _ f.setWidth_eq) BitVec.setWidth_append_eq_right

/-- Unpacking a valid word and packing it again gives the word. -/
theorem pack_unpack {b : BitVec Format.binary64.numBits} (h : Format.binary64.Valid b) :
    UnpackedFloat.pack Format.binary64 (UnpackedFloat.unpack Format.binary64 b) = b := by
  have hfields := packComponents_unpack b
  rw [UnpackedFloat.unpack]
  by_cases hones : unpackExponent b = -1#_
  · rw [if_pos hones]
    by_cases hzero : unpackMantissa b = 0#_
    · rw [hones, hzero] at hfields
      rw [if_pos hzero]
      exact hfields
    · rw [if_neg hzero]
      exact (h.eq_packedNaN hones hzero).symm
  · rw [if_neg hones]
    by_cases hfinest : unpackExponent b = 0#_
    · rw [if_pos hfinest]
      rw [hfinest] at hfields ⊢
      by_cases hzero : unpackMantissa b = 0#_
      · rw [hzero] at hfields
        rw [dif_pos hzero]
        exact hfields
      · rw [dif_neg hzero]
        exact (pack_finest ..).trans hfields
    · rw [if_neg hfinest]
      exact (pack_leading _ _ hones _ _).trans hfields

/-- A value is built from its word. -/
theorem float_ofBits_toBits (x : Float) : Float.ofBits x.toBits = x := by
  obtain ⟨⟨bits, hvalid⟩⟩ := x
  show Float.ofModel (Float.Model.pack (UnpackedFloat.unpack Format.binary64 bits.toBitVec)) = _
  simp only [Float.Model.pack, pack_unpack hvalid]

/-! ## Finite words -/

theorem fractionSize_eq : fractionSize = 2 ^ 52 := rfl

theorem signBit_eq : signBit = 2 ^ 63 := rfl

/-- A mantissa and an exponent as a word has them: the mantissa has its leading bit, or the exponent
is the least one. -/
structure Normal (mantissa : Nat) (exponent : Int) : Prop where
  lt : mantissa < 2 * fractionSize
  least_le : leastExponent ≤ exponent
  le_greatest : exponent ≤ 971
  leading : fractionSize ≤ mantissa ∨ exponent = leastExponent

/-- The word, without sign, of a mantissa and an exponent in normal form. -/
def magnitudeBits (mantissa : Nat) (exponent : Int) : Nat :=
  (exponent - leastExponent).toNat * fractionSize + mantissa

theorem Normal.magnitudeBits_lt {m : Nat} {e : Int} (h : Normal m e) :
    magnitudeBits m e < infinityBits := by
  obtain ⟨hlt, hleast, hgreatest, -⟩ := h
  rw [magnitudeBits, infinityBits]
  rw [fractionSize_eq, leastExponent] at *
  omega

/-- A finite word is a sign before the word of its mantissa and exponent. -/
theorem ofBits_eq_finite {bits m : Nat} {negative : Bool} {e : Int} (hbits : bits < 2 * signBit)
    (h : ofBits bits = finite negative m e) :
    Normal m e ∧ (if negative then signBit + magnitudeBits m e else magnitudeBits m e) = bits := by
  -- It is enough to find the sign and the magnitude, since a word is made of the two.
  suffices hword : Normal m e ∧ negative = decide (signBit ≤ bits) ∧
      magnitudeBits m e = bits % signBit by
    obtain ⟨hnormal, rfl, hmagnitude⟩ := hword
    refine ⟨hnormal, ?_⟩
    rw [hmagnitude]
    by_cases hsign : signBit ≤ bits
    · rw [decide_eq_true hsign, if_pos rfl, Nat.mod_eq_sub_mod hsign, Nat.mod_eq_of_lt (by omega),
        Nat.add_sub_cancel' hsign]
    · rw [decide_eq_false hsign, if_neg Bool.false_ne_true,
        Nat.mod_eq_of_lt (Nat.lt_of_not_le hsign)]
  dsimp only [ofBits] at h
  split at h
  · -- All bits of the exponent are set, so the word is no finite number.
    split at h <;> cases h
  · next hones =>
    have hfraction := Nat.mod_lt bits (show 0 < fractionSize by decide)
    split at h
    · next hfield =>
      cases h
      refine ⟨⟨by omega, Int.le_refl _, by decide, .inr rfl⟩, rfl, ?_⟩
      rw [magnitudeBits, Int.sub_self, signBit_eq]
      rw [fractionSize_eq] at hfield ⊢
      omega
    · next hfield =>
      cases h
      have hrange := Nat.mod_lt (bits / fractionSize) (show 0 < 2048 by decide)
      refine ⟨⟨by omega, ?_, ?_, .inl (Nat.le_add_right ..)⟩, rfl, ?_⟩
      · omega
      · rw [leastExponent]
        omega
      · rw [magnitudeBits, Int.add_sub_cancel, signBit_eq]
        rw [fractionSize_eq] at hfield ⊢
        omega

/-- A finite value is built from its sign and from the word of its mantissa and exponent. -/
theorem toFloat_of_ofFloat {x : Float} {m : Nat} {negative : Bool} {e : Int}
    (h : ofFloat x = finite negative m e) : toFloat negative (magnitudeBits m e) = x := by
  obtain ⟨-, hword⟩ := ofBits_eq_finite (UInt64.toNat_lt _) h
  rw [toFloat, hword, Nat.toUInt64_eq, UInt64.ofNat_toNat, float_ofBits_toBits]

/-- A value is finite unless its exponent field is all ones. -/
theorem isFinite_iff_field {x : Float} :
    x.isFinite = true ↔ x.toBits.toNat / fractionSize % 2048 ≠ 2047 := by
  have hfield : (@unpackExponent Format.binary64 x.toBits.toBitVec).toNat =
      x.toBits.toNat / fractionSize % 2048 := by
    rw [fractionSize_eq, ← Nat.shiftRight_eq_div_pow]
    rfl
  rw [← hfield]
  show (UnpackedFloat.unpack Format.binary64 x.toBits.toBitVec).isFinite = true ↔ _
  rw [UnpackedFloat.unpack]
  by_cases hones : @unpackExponent Format.binary64 x.toBits.toBitVec = -1#_
  · rw [if_pos hones, hones]
    refine iff_of_false ?_ (by decide)
    split <;> exact Bool.false_ne_true
  · rw [if_neg hones]
    refine iff_of_true ?_ fun h => hones (BitVec.eq_of_toNat_eq h)
    split
    · split <;> rfl
    · rfl

/-- The finite values are those with a mantissa and an exponent. -/
theorem isFinite_iff {x : Float} :
    x.isFinite = true ↔ ∃ negative m e, ofFloat x = finite negative m e := by
  rw [isFinite_iff_field, ofFloat]
  dsimp only [ofBits]
  by_cases hones : x.toBits.toNat / fractionSize % 2048 = 2047
  · refine iff_of_false (fun h => h hones) ?_
    rw [if_pos hones]
    rintro ⟨negative, m, e, h⟩
    split at h <;> cases h
  · refine iff_of_true hones ?_
    rw [if_neg hones]
    split
    · exact ⟨_, _, _, rfl⟩
    · exact ⟨_, _, _, rfl⟩

end Scriptlet.Binary64
