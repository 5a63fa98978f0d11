import Mathlib
import Scriptlet.Json.Read

/-!
# Written numbers

A number is written with an optional sign, whole digits without leading zeros, an optional point
with further digits and an optional exponent.
-/

namespace Scriptlet

/-- What can follow a value in a written text. -/
def Json.EndsValue (rest : List Char) : Prop :=
  rest = [] ∨ (∃ t, rest = ',' :: t) ∨ ∃ t, rest = '\n' :: t

namespace Numeral

/-! ## Digits -/

theorem ofDigits_append (a b : List Char) :
    ofDigits (a ++ b) = 10 ^ b.length * ofDigits a + ofDigits b :=
  (Nat.ofDigitChars_append (b := 10) 0).trans Nat.ofDigitChars_eq_ofDigitChars_zero

theorem ofDigits_replicate_zero (n : Nat) : ofDigits (List.replicate n '0') = 0 :=
  Nat.ofDigitChars_replicate_zero

theorem ofDigits_toDigits (n : Nat) : ofDigits (Nat.toDigits 10 n) = n :=
  Nat.ofDigitChars_ten_toDigits

theorem isDigit_of_mem_toDigits {n : Nat} {c : Char} (h : c ∈ Nat.toDigits 10 n) :
    c.isDigit = true :=
  Nat.isDigit_of_mem_toDigits (by decide) (by decide) h

/-- The digits of a number other than zero have no leading zero. -/
theorem head?_toDigits_ne {n : Nat} (h : 0 < n) : (Nat.toDigits 10 n).head? ≠ some '0' := by
  induction n using Nat.strongRecOn with
  | ind n ih =>
    rw [Nat.toDigits_eq_if (by decide)]
    split
    · rw [List.head?_cons, ne_eq, Option.some.injEq, Nat.digitChar_eq_zero]
      exact Nat.ne_of_gt h
    · rw [List.head?_append, Option.or_of_isSome (List.isSome_head?.mpr Nat.toDigits_ne_nil)]
      exact ih (n / 10) (by omega) (by omega)

/-- The text does not start with a digit. -/
def NoDigit (cs : List Char) : Prop := ∀ c ∈ cs.head?, c.isDigit = false

/-- Digits are split from what follows them. -/
theorem splitDigits_append {digits rest : List Char} (hdigits : ∀ c ∈ digits, c.isDigit = true)
    (hrest : NoDigit rest) : splitDigits (digits ++ rest) = (digits, rest) := by
  rw [splitDigits, List.takeWhile_append_of_pos hdigits, List.dropWhile_append_of_pos hdigits]
  cases rest with
  | nil => rw [List.takeWhile_nil, List.dropWhile_nil, List.append_nil]
  | cons c rest =>
    have hc : ¬ c.isDigit = true := Bool.eq_false_iff.mp (hrest c rfl)
    rw [List.takeWhile_cons_of_neg hc, List.dropWhile_cons_of_neg hc, List.append_nil]

/-- All digits of a text of digits are split off. -/
theorem splitDigits_self {digits : List Char} (hdigits : ∀ c ∈ digits, c.isDigit = true) :
    splitDigits digits = (digits, []) := by
  have hsplit := splitDigits_append hdigits (nofun : NoDigit [])
  rwa [List.append_nil] at hsplit

/-- A digit is no sign. -/
theorem splitSign_of_isDigit {c : Char} {rest : List Char} (hc : c.isDigit = true) :
    splitSign (c :: rest) = (false, c :: rest) := by
  unfold splitSign
  split
  · next h =>
    cases h
    cases hc
  · next h =>
    cases h
    cases hc
  · rfl

/-! ## Spellings -/

/-- The text of an exponent: nothing, or a letter, a sign and digits. -/
inductive ExponentText : Int → List Char → Prop
  | absent : ExponentText 0 []
  | plus {digits : List Char} : digits ≠ [] → (∀ c ∈ digits, c.isDigit = true) →
      ExponentText (ofDigits digits) ('e' :: '+' :: digits)
  | minus {digits : List Char} : digits ≠ [] → (∀ c ∈ digits, c.isDigit = true) →
      ExponentText (-ofDigits digits) ('e' :: '-' :: digits)

/-- A numeral can be written with a given text for its exponent. -/
structure Spelled (n : Numeral) (exponentText : List Char) : Prop where
  whole_ne_nil : n.whole ≠ []
  whole : ∀ c ∈ n.whole, c.isDigit = true
  leading : n.whole.head? = some '0' → n.whole = ['0']
  fraction : ∀ c ∈ n.fraction, c.isDigit = true
  exponent : ExponentText n.exponent exponentText

/-- A numeral has a first digit. -/
theorem Spelled.exists_digit {n : Numeral} {cs : List Char} (h : n.Spelled cs) :
    ∃ c ds, n.whole = c :: ds ∧ c.isDigit = true := by
  obtain ⟨c, ds, hcons⟩ := List.exists_cons_of_ne_nil h.whole_ne_nil
  exact ⟨c, ds, hcons, h.whole c (hcons ▸ List.mem_cons_self ..)⟩

/-- The point with the digits after it, or nothing. -/
def fractionText (n : Numeral) : List Char :=
  if n.fraction = [] then [] else '.' :: n.fraction

/-- The sign of a numeral as it is written. -/
def signText (n : Numeral) : List Char := if n.negative then ['-'] else []

/-- A numeral with a given text for its exponent. -/
def text (n : Numeral) (exponentText : List Char) : List Char :=
  n.signText ++ n.whole ++ n.fractionText ++ exponentText

/-- The text of an exponent is read as this exponent. -/
theorem readExponent?_of_exponentText {k : Int} {cs : List Char} (h : ExponentText k cs) :
    readExponent? cs = some k := by
  cases h with
  | absent => rfl
  | plus hne hdigits | minus hne hdigits =>
    rw [readExponent?, if_pos (.inl rfl), splitSign]
    dsimp only
    rw [splitDigits_self hdigits]
    simp [hne]

/-- No exponent starts with a digit or a point, and neither does what follows it. -/
theorem ExponentText.head {k : Int} {cs rest : List Char} (h : ExponentText k cs)
    (hrest : Json.EndsValue rest) {c : Char} (hc : c ∈ (cs ++ rest).head?) :
    c = 'e' ∨ c = ',' ∨ c = '\n' := by
  cases h with
  | absent =>
    rcases hrest with rfl | ⟨t, rfl⟩ | ⟨t, rfl⟩
    · cases hc
    · exact .inr (.inl (Option.some.inj hc).symm)
    · exact .inr (.inr (Option.some.inj hc).symm)
  | plus | minus => exact .inl (Option.some.inj hc).symm

/-- Neither an exponent nor what follows a value starts with a digit. -/
theorem ExponentText.noDigit {k : Int} {cs rest : List Char} (h : ExponentText k cs)
    (hrest : Json.EndsValue rest) : NoDigit (cs ++ rest) := by
  intro c hc
  rcases h.head hrest hc with rfl | rfl | rfl <;> rfl

/-- The whole part of a numeral ends before its fraction and its exponent. -/
theorem ExponentText.noDigit_fraction {n : Numeral} {k : Int} {cs rest : List Char}
    (h : ExponentText k cs) (hrest : Json.EndsValue rest) :
    NoDigit (n.fractionText ++ (cs ++ rest)) := by
  rw [fractionText]
  split
  · exact h.noDigit hrest
  · intro c hc
    cases hc
    rfl

/-- The digits behind a point, if there is one. -/
def splitFraction : List Char → List Char × List Char
  | '.' :: rest => splitDigits rest
  | rest => ([], rest)

/-- A numeral is read in three parts: the digits before the point, those behind it and the
exponent. -/
theorem readUnsigned?_eq (negative : Bool) (cs : List Char) :
    readUnsigned? negative cs =
      if (splitDigits cs).1.isEmpty ∧ (splitFraction (splitDigits cs).2).1.isEmpty then none
      else (readExponent? (splitFraction (splitDigits cs).2).2).map fun exponent =>
        ⟨negative, (splitDigits cs).1, (splitFraction (splitDigits cs).2).1, exponent⟩ := rfl

/-- There is no fraction where an exponent starts. -/
theorem splitFraction_of_exponentText {k : Int} {cs : List Char} (h : ExponentText k cs) :
    splitFraction cs = ([], cs) := by
  cases h <;> rfl

/-- The fraction of a numeral is split off as it is written. -/
theorem Spelled.splitFraction_eq {n : Numeral} {cs : List Char} (h : n.Spelled cs) :
    splitFraction (n.fractionText ++ cs) = (n.fraction, cs) := by
  rw [fractionText]
  split
  · next hf => rw [hf, List.nil_append, splitFraction_of_exponentText h.exponent]
  · have hexp := h.exponent.noDigit (.inl rfl)
    rw [List.append_nil] at hexp
    exact splitDigits_append h.fraction hexp

/-- A numeral without its sign is read as it is written. -/
theorem Spelled.readUnsigned?_whole {n : Numeral} {cs : List Char} (h : n.Spelled cs) :
    readUnsigned? n.negative (n.whole ++ n.fractionText ++ cs) = some n := by
  have htail := h.exponent.noDigit_fraction (n := n) (.inl rfl)
  rw [List.append_nil] at htail
  rw [readUnsigned?_eq, List.append_assoc, splitDigits_append h.whole htail]
  dsimp only
  rw [h.splitFraction_eq]
  dsimp only
  rw [if_neg fun hboth => h.whole_ne_nil (List.isEmpty_iff.mp hboth.1),
    readExponent?_of_exponentText h.exponent, Option.map_some]

/-- The sign of a numeral is split off as it is written. -/
theorem Spelled.splitSign_text {n : Numeral} {cs : List Char} (h : n.Spelled cs) :
    splitSign (n.text cs) = (n.negative, n.whole ++ n.fractionText ++ cs) := by
  rw [text, signText]
  cases n.negative with
  | true => rfl
  | false =>
    obtain ⟨c, ds, hcons, hc⟩ := h.exists_digit
    rw [hcons]
    exact splitSign_of_isDigit hc

end Numeral

namespace Json

open Numeral

/-- The whole part of a numeral is read as it is written, since it has no zero in front. -/
theorem wholeDigits?_of_spelled {n : Numeral} {cs rest : List Char} (h : n.Spelled cs)
    (hrest : NoDigit rest) : wholeDigits? (n.whole ++ rest) = some (n.whole, rest) := by
  have hsplit := splitDigits_append h.whole hrest
  unfold wholeDigits?
  split
  · next rest' heq =>
    -- A leading zero is the only digit.
    have hzero : n.whole = ['0'] := by
      obtain ⟨c, ds, hcons, -⟩ := h.exists_digit
      rw [hcons] at heq
      cases heq
      exact h.leading (by rw [hcons]; rfl)
    rw [hzero] at heq ⊢
    cases heq
    rfl
  · rw [hsplit]
    dsimp only
    rw [if_neg fun hempty => h.whole_ne_nil (List.isEmpty_iff.mp hempty)]

/-- The fraction of a numeral is read as it is written. -/
theorem fractionPart?_of_spelled {n : Numeral} {cs rest : List Char} (h : n.Spelled cs)
    (hrest : EndsValue rest) :
    fractionPart? (n.fractionText ++ (cs ++ rest)) = some (n.fractionText, cs ++ rest) := by
  rw [fractionText]
  split
  · rw [List.nil_append]
    unfold fractionPart?
    split
    · next rest' heq =>
      exact absurd (h.exponent.head (c := '.') hrest (by rw [heq]; rfl)) (by decide)
    · rfl
  · next hf =>
    rw [List.cons_append, fractionPart?, splitDigits_append h.fraction (h.exponent.noDigit hrest)]
    dsimp only
    rw [if_neg fun hempty => hf (List.isEmpty_iff.mp hempty)]

/-- The exponent of a numeral is read as it is written. -/
theorem exponentPart?_of_exponentText {k : Int} {cs rest : List Char}
    (h : ExponentText k cs) (hrest : EndsValue rest) :
    exponentPart? (cs ++ rest) = some (cs, rest) := by
  have hnodigit : NoDigit rest := ExponentText.absent.noDigit hrest
  cases h with
  | absent =>
    rcases hrest with rfl | ⟨t, rfl⟩ | ⟨t, rfl⟩ <;> rfl
  | plus hne hdigits | minus hne hdigits =>
    rw [List.cons_append, List.cons_append, exponentPart?, if_pos (.inl rfl), exponentSign]
    dsimp only
    rw [splitDigits_append hdigits hnodigit]
    dsimp only
    rw [if_neg fun hempty => hne (List.isEmpty_iff.mp hempty)]
    rfl

/-- A written numeral is one number, whatever follows it. -/
theorem numberLexeme?_of_spelled {n : Numeral} {cs rest : List Char} (h : n.Spelled cs)
    (hrest : EndsValue rest) : numberLexeme? (n.text cs ++ rest) = some (n.text cs, rest) := by
  have hwhole := wholeDigits?_of_spelled h (h.exponent.noDigit_fraction (n := n) hrest)
  have hfraction := fractionPart?_of_spelled h hrest
  have hexponent := exponentPart?_of_exponentText h.exponent hrest
  rw [text, signText, List.append_assoc, List.append_assoc, List.append_assoc]
  cases n.negative with
  | true =>
    rw [if_pos rfl, List.cons_append, List.nil_append, numberLexeme?]
    simp only [hwhole, hfraction, hexponent, Option.bind_eq_bind, Option.bind_some]
    rfl
  | false =>
    obtain ⟨c, ds, hcons, hc⟩ := h.exists_digit
    have hminus : ∀ t, n.whole ++ (n.fractionText ++ (cs ++ rest)) = '-' :: t → False := by
      intro t ht
      rw [hcons] at ht
      cases ht
      cases hc
    rw [if_neg Bool.false_ne_true, List.nil_append, numberLexeme?]
    · simp only [hwhole, hfraction, hexponent, Option.bind_eq_bind, Option.bind_some]
      rfl
    · exact hminus

/-- A written numeral is read as it is written. -/
theorem numeral?_of_spelled {n : Numeral} {cs : List Char} (h : n.Spelled cs) :
    numeral? (String.ofList (n.text cs)) = some n := by
  rw [numeral?, String.toList_ofList, h.splitSign_text]
  exact h.readUnsigned?_whole

end Json

namespace Numeral

/-! ## Whole numbers -/

/-- The digits of a natural number can be written as a numeral. -/
theorem spelled_toDigits (negative : Bool) (n : Nat) :
    Spelled ⟨negative, Nat.toDigits 10 n, [], 0⟩ [] where
  whole_ne_nil := Nat.toDigits_ne_nil
  whole _ hc := isDigit_of_mem_toDigits hc
  leading hzero := by
    rcases Nat.eq_zero_or_pos n with rfl | hpos
    · rfl
    · exact absurd hzero (head?_toDigits_ne hpos)
  fraction := nofun
  exponent := .absent

/-- A natural number is written with its digits. -/
theorem toList_toString_nat (n : Nat) : (toString n).toList = Nat.toDigits 10 n := Nat.toList_repr

/-- A whole number with a sign is written as one. -/
theorem toList_toString_int (n : Int) :
    (toString n).toList = text ⟨n < 0, Nat.toDigits 10 n.natAbs, [], 0⟩ [] := by
  rw [Int.toString_eq_repr, Int.repr_eq_if, text, signText, fractionText, if_pos rfl,
    List.append_nil, List.append_nil]
  dsimp only
  by_cases hneg : n < 0
  · rw [if_neg (by omega), decide_eq_true hneg, if_pos rfl, String.toList_append, Nat.toList_repr,
      show (-n).toNat = n.natAbs by omega]
    rfl
  · rw [if_pos (by omega), decide_eq_false hneg, if_neg Bool.false_ne_true, Nat.toList_repr,
      show n.toNat = n.natAbs by omega, List.nil_append]

/-- An exponent that is written has the letter `e` in it. -/
theorem ExponentText.mem_of_ne_nil {k : Int} {cs : List Char} (h : ExponentText k cs)
    (hcs : cs ≠ []) : 'e' ∈ cs := by
  cases h with
  | absent => exact absurd rfl hcs
  | plus | minus => exact List.mem_cons_self ..

end Numeral

namespace Json

/-- A text is a number as it is written. -/
def IsNumber (lexeme : String) : Prop :=
  ∃ (n : Numeral) (exponentText : List Char), n.Spelled exponentText ∧
    lexeme = String.ofList (n.text exponentText)

/-- An integer is written as a number. -/
theorem isNumber_toString_int (n : Int) : IsNumber (toString n) := by
  refine ⟨_, [], Numeral.spelled_toDigits (n < 0) n.natAbs, ?_⟩
  rw [← Numeral.toList_toString_int, String.ofList_toList]

/-- A written number with a point or an exponent is no whole number. -/
theorem wholeNumber?_of_spelled {n : Numeral} {cs : List Char} (h : n.Spelled cs)
    (hpoint : n.fraction ≠ [] ∨ cs ≠ []) : wholeNumber? (String.ofList (n.text cs)) = none := by
  have hmark : ∃ c ∈ n.whole ++ n.fractionText ++ cs, c.isDigit = false := by
    rcases hpoint with hf | hcs
    · refine ⟨'.', List.mem_append_left _ (List.mem_append_right _ ?_), rfl⟩
      rw [Numeral.fractionText, if_neg hf]
      exact List.mem_cons_self ..
    · exact ⟨'e', List.mem_append_right _ (h.exponent.mem_of_ne_nil hcs), rfl⟩
  rw [wholeNumber?, String.toList_ofList, h.splitSign_text]
  refine if_neg fun hwhole => ?_
  obtain ⟨c, hmem, hc⟩ := hmark
  rw [List.all_eq_true.mp hwhole.2.2.1 c hmem] at hc
  cases hc

/-- No whole number is written as a zero with a minus sign. -/
theorem toString_int_ne (n : Int) : toString n ≠ "-0" := by
  intro heq
  have hsplit := congrArg (fun s => Numeral.splitSign s.toList) heq
  rw [Numeral.toList_toString_int, (Numeral.spelled_toDigits _ _).splitSign_text,
    Numeral.fractionText, if_pos rfl, List.append_nil, List.append_nil] at hsplit
  obtain ⟨hneg, hdigits⟩ := Prod.mk.inj hsplit
  have hneg : n < 0 := of_decide_eq_true hneg
  have hdigits : Nat.toDigits 10 n.natAbs = ['0'] := hdigits
  have habs := Numeral.ofDigits_toDigits n.natAbs
  rw [hdigits] at habs
  have habs : 0 = n.natAbs := habs
  omega

/-- A whole number that fits is read as it is written. -/
theorem wholeNumber?_toString {n : Int} (h : Number.Fits n) :
    wholeNumber? (toString n) = some n := by
  have hspelled := Numeral.spelled_toDigits (n < 0) n.natAbs
  have hvalue : (if decide (n < 0) = true then -(n.natAbs : Int) else n.natAbs) = n := by
    simp only [decide_eq_true_eq]
    split <;> omega
  rw [wholeNumber?, Numeral.toList_toString_int, hspelled.splitSign_text, Numeral.fractionText,
    if_pos rfl, List.append_nil, List.append_nil]
  dsimp only
  rw [Numeral.ofDigits_toDigits, hvalue]
  refine if_pos ⟨toString_int_ne n, Nat.toDigits_ne_nil, ?_, h⟩
  exact List.all_eq_true.mpr fun c hc => Numeral.isDigit_of_mem_toDigits hc

end Json

end Scriptlet
