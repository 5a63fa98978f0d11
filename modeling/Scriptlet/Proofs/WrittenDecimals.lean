import Scriptlet.Proofs.Decimals
import Scriptlet.Proofs.WrittenNumbers

/-!
# Written decimals

A decimal is written with a point, an exponent or both, so it is never read as a whole number, and
the numeral that is read stands for the same number.
-/

namespace Scriptlet

namespace Decimal

open Numeral

/-- A text writes a decimal, without sign and not as a whole number. -/
def Written (d : Decimal) (text : String) : Prop :=
  ∃ (n : Numeral) (exponentText : List Char), n.Spelled exponentText ∧ n.negative = false ∧
    text = String.ofList (n.text exponentText) ∧ (n.fraction ≠ [] ∨ exponentText ≠ []) ∧
    n.magnitude.value = d.value

/-- The digits of a positive decimal. -/
structure DigitsOf (d : Decimal) (digits : List Char) : Prop where
  ne_nil : digits ≠ []
  isDigit : ∀ c ∈ digits, c.isDigit = true
  head : digits.head? ≠ some '0'
  value : ofDigits digits = d.coefficient

theorem digitsOf_toDigits {d : Decimal} (hd : 0 < d.coefficient) :
    d.DigitsOf (Nat.toDigits 10 d.coefficient) where
  ne_nil := Nat.toDigits_ne_nil
  isDigit _ hc := isDigit_of_mem_toDigits hc
  head := head?_toDigits_ne hd
  value := ofDigits_toDigits d.coefficient

variable {d : Decimal} {digits : List Char}

/-- A numeral stands for the same number as a decimal if it has the same digits with zeros behind
them, and an exponent that is smaller by as many. -/
theorem value_magnitude {n : Numeral} (zeros : Nat)
    (hdigits : ofDigits (n.whole ++ n.fraction) = 10 ^ zeros * d.coefficient)
    (hexponent : n.exponent - n.fraction.length + zeros = d.exponent) :
    n.magnitude.value = d.value := by
  rw [magnitude, Decimal.value, Decimal.value, hdigits, ← hexponent, zpow_add₀ (by norm_num),
    zpow_natCast]
  push_cast
  ring

/-- Digits with zeros behind them and a point at the end. -/
theorem DigitsOf.written_whole (h : d.DigitsOf digits) (hexp : 0 ≤ d.exponent) :
    d.Written (String.ofList (digits ++ List.replicate d.exponent.toNat '0' ++ ['.', '0'])) := by
  obtain ⟨c, ds, rfl⟩ := List.exists_cons_of_ne_nil h.ne_nil
  refine ⟨⟨false, c :: ds ++ List.replicate d.exponent.toNat '0', ['0'], 0⟩, [], ⟨?_, ?_, ?_, ?_,
    .absent⟩, rfl, ?_, .inl (List.cons_ne_nil _ _), ?_⟩
  · exact List.cons_ne_nil _ _
  · intro c' hc'
    rcases List.mem_append.mp hc' with hc' | hc'
    · exact h.isDigit c' hc'
    · rw [List.eq_of_mem_replicate hc']
      rfl
  · intro hzero
    exact absurd hzero h.head
  · intro c' hc'
    rw [List.mem_singleton.mp hc']
    rfl
  · rw [text, List.append_nil]
    rfl
  · refine value_magnitude (d.exponent.toNat + 1) ?_ ?_
    · dsimp only
      rw [List.append_assoc, ofDigits_append, h.value, ← List.replicate_succ',
        ofDigits_replicate_zero, List.length_replicate, Nat.add_zero]
    · dsimp only [List.length_singleton]
      omega

/-- Digits with a point among or before them, filled with zeros up to one digit before the
point. -/
theorem DigitsOf.written_places (h : d.DigitsOf digits) {places : Nat} {filled : List Char}
    (hplaces : d.exponent = -(places : Int)) (hpos : 0 < places)
    (hfilled : filled = List.replicate (places + 1 - digits.length) '0' ++ digits) :
    d.Written (String.ofList (filled.take (filled.length - places) ++ ['.']
      ++ filled.drop (filled.length - places))) := by
  have hlength : filled.length = places + 1 - digits.length + digits.length := by
    rw [hfilled, List.length_append, List.length_replicate]
  have hdigit : ∀ c ∈ filled, c.isDigit = true := by
    intro c hc
    rw [hfilled] at hc
    rcases List.mem_append.mp hc with hc | hc
    · rw [List.eq_of_mem_replicate hc]
      rfl
    · exact h.isDigit c hc
  -- There are more digits than places, so some stand before the point, and at least one behind it.
  have hfraction : filled.drop (filled.length - places) ≠ [] := by
    rw [ne_eq, List.drop_eq_nil_iff]
    omega
  refine ⟨⟨false, filled.take (filled.length - places), filled.drop (filled.length - places), 0⟩,
    [], ⟨?_, ?_, ?_, ?_, .absent⟩, rfl, ?_, .inl hfraction, ?_⟩
  · rw [ne_eq, ← List.length_eq_zero_iff, List.length_take]
    omega
  · exact fun c hc => hdigit c (List.mem_of_mem_take hc)
  · dsimp only
    intro hzero
    rw [List.head?_take, if_neg (by omega)] at hzero
    by_cases hshort : digits.length ≤ places
    · -- One zero stands before the point.
      obtain ⟨rest, hcons⟩ := List.head?_eq_some_iff.mp hzero
      have hone : filled.length - places = 1 := by omega
      rw [hone, hcons]
      rfl
    · have hsame : filled = digits := by
        rw [hfilled, Nat.sub_eq_zero_of_le (by omega), List.replicate_zero, List.nil_append]
      rw [hsame] at hzero
      exact absurd hzero h.head
  · exact fun c hc => hdigit c (List.mem_of_mem_drop hc)
  · rw [text, fractionText, if_neg hfraction, List.append_nil, List.append_assoc]
    rfl
  · refine value_magnitude 0 ?_ ?_
    · dsimp only
      rw [List.take_append_drop, hfilled, ofDigits_append, ofDigits_replicate_zero, h.value,
        Nat.mul_zero, Nat.zero_add, Nat.pow_zero, Nat.one_mul]
    · dsimp only
      rw [List.length_drop]
      omega

/-- Digits written in full. -/
theorem DigitsOf.written_plainText (h : d.DigitsOf digits) :
    d.Written (plainText digits d.exponent) := by
  rw [plainText]
  split
  · next hexp => exact h.written_whole hexp
  · next hexp => exact h.written_places (by omega) (by omega) rfl

/-- An exponent with its sign, as it is written. -/
theorem exponentText_toDigits (k : Int) :
    ExponentText k ('e' :: (if k < 0 then '-' else '+') :: Nat.toDigits 10 k.natAbs) := by
  have hdigits : ∀ c ∈ Nat.toDigits 10 k.natAbs, c.isDigit = true :=
    fun c hc => isDigit_of_mem_toDigits hc
  split
  · have hminus := ExponentText.minus Nat.toDigits_ne_nil hdigits
    rwa [ofDigits_toDigits, show -(k.natAbs : Int) = k by omega] at hminus
  · have hplus := ExponentText.plus Nat.toDigits_ne_nil hdigits
    rwa [ofDigits_toDigits, show (k.natAbs : Int) = k by omega] at hplus

/-- Digits written with an exponent. -/
theorem DigitsOf.written_scientificText (h : d.DigitsOf digits) :
    d.Written (scientificText "+" digits d.exponent) := by
  obtain ⟨c, ds, rfl⟩ := List.exists_cons_of_ne_nil h.ne_nil
  obtain ⟨hc, hds⟩ := List.forall_mem_cons.mp h.isDigit
  have hexponent := exponentText_toDigits (d.exponent + (c :: ds).length - 1)
  refine ⟨⟨false, [c], ds, d.exponent + (c :: ds).length - 1⟩, _, ⟨?_, ?_, ?_, hds, hexponent⟩, rfl,
    ?_, .inr (List.cons_ne_nil _ _), ?_⟩
  · exact List.cons_ne_nil _ _
  · exact List.forall_mem_cons.mpr ⟨hc, nofun⟩
  · intro hzero
    exact absurd hzero h.head
  · generalize hpower : d.exponent + (c :: ds).length - 1 = power
    have hpoint : (c :: ds).take 1 ++ (if (c :: ds).length = 1 then [] else ['.']) ++
        (c :: ds).drop 1 = [c] ++ if ds = [] then [] else '.' :: ds := by
      cases ds <;> rfl
    have hsign : (if power < 0 then "-" else "+").toList = [if power < 0 then '-' else '+'] := by
      split <;> rfl
    rw [scientificText, hpower, hpoint, ← String.toList_inj]
    simp only [String.toList_append, String.toList_ofList, hsign, toList_toString_nat, text,
      signText, fractionText, List.append_assoc]
    rfl
  · refine value_magnitude 0 ?_ ?_
    · rw [pow_zero, one_mul]
      exact h.value
    · rw [List.length_cons]
      dsimp only
      omega

/-- A positive decimal as programs are stored. -/
theorem written_stored (hd : 0 < d.coefficient) : d.Written (Style.stored.write d) := by
  have hdigits := digitsOf_toDigits hd
  rw [Style.write]
  split
  · exact hdigits.written_plainText
  · exact hdigits.written_scientificText

end Decimal

/-! ## Finite values -/

open Binary64

/-- A finite value is written as a numeral that is no whole number and has the word of the value as
its nearest one. -/
theorem Decimal.exists_finite? {x : Float} {negative : Bool} {m : Nat} {e : Int}
    (h : ofFloat x = finite negative m e) :
    ∃ (n : Numeral) (exponentText : List Char), n.Spelled exponentText ∧
      (n.fraction ≠ [] ∨ exponentText ≠ []) ∧ n.negative = negative ∧
      n.bits = magnitudeBits m e ∧
      Style.stored.finite? x = some (String.ofList (n.text exponentText)) := by
  have hnormal := (ofBits_eq_finite (UInt64.toNat_lt _) h).1
  rw [Style.finite?, h]
  dsimp only
  by_cases hm : m = 0
  · -- A zero is written as `0.0`, and has the least exponent.
    have hleast : e = leastExponent := by
      refine hnormal.leading.resolve_left ?_
      rw [hm]
      decide
    refine ⟨⟨negative, ['0'], ['0'], 0⟩, [], ⟨?_, ?_, ?_, ?_, .absent⟩, .inl ?_, rfl, ?_, ?_⟩
    · exact List.cons_ne_nil _ _
    · exact List.forall_mem_cons.mpr ⟨rfl, nofun⟩
    · exact fun _ => rfl
    · exact List.forall_mem_cons.mpr ⟨rfl, nofun⟩
    · exact List.cons_ne_nil _ _
    · rw [hm, hleast]
      rfl
    · rw [if_pos hm]
      cases negative <;> rfl
  · -- Every other number is written with the fewest digits that lie in its basin.
    have hpos := Nat.pos_of_ne_zero hm
    have hcontains := shortest_contains Style.stored.tie hpos hnormal
    have hcoefficient := coefficient_pos_of_contains hpos hnormal hcontains
    obtain ⟨⟨_, whole, fraction, k⟩, exponentText, hspelled, rfl, htext, hpoint, hvalue⟩ :=
      written_stored hcoefficient
    refine ⟨⟨negative, whole, fraction, k⟩, exponentText, ?_, hpoint, rfl, ?_, ?_⟩
    · exact ⟨hspelled.1, hspelled.2, hspelled.3, hspelled.4, hspelled.5⟩
    · rw [← hvalue] at hcontains
      exact nearestBits_of_contains hpos hnormal hcontains
    · rw [if_neg hm, htext]
      cases negative with
      | true => exact congrArg some (String.ofList_append ..).symm
      | false => exact congrArg some (String.empty_append ..)

/-- Exactly the finite values have digits. -/
theorem Decimal.isSome_finite? (style : Style) {x : Float} :
    (style.finite? x).isSome = true ↔ x.isFinite = true := by
  rw [isFinite_iff, Style.finite?]
  cases ofFloat x with
  | nan => exact iff_of_false nofun nofun
  | infinite negative => exact iff_of_false nofun nofun
  | finite negative m e => exact iff_of_true rfl ⟨negative, m, e, rfl⟩

/-- A finite value is written as a number and read as itself. -/
theorem Json.ofLexeme?_finite {x : Float} {text : String}
    (h : Decimal.Style.stored.finite? x = some text) :
    IsNumber text ∧ Number.ofLexeme? text = some (.float x) := by
  cases hx : ofFloat x with
  | nan =>
    rw [Decimal.Style.finite?, hx] at h
    cases h
  | infinite negative =>
    rw [Decimal.Style.finite?, hx] at h
    cases h
  | finite negative m e =>
    obtain ⟨n, exponentText, hspelled, hpoint, hsign, hbits, htext⟩ := Decimal.exists_finite? hx
    cases htext.symm.trans h
    refine ⟨⟨n, exponentText, hspelled, rfl⟩, ?_⟩
    have hnormal := (ofBits_eq_finite (UInt64.toNat_lt _) hx).1
    have hfinite : n.bits < infinityBits := hbits ▸ hnormal.magnitudeBits_lt
    have hvalue : n.toFloat = x := by
      rw [Numeral.toFloat, hsign, hbits, toFloat_of_ofFloat hx]
    rw [Number.ofLexeme?, wholeNumber?_of_spelled hspelled hpoint, numeral?_of_spelled hspelled]
    dsimp only
    rw [if_pos hfinite, hvalue]

end Scriptlet
