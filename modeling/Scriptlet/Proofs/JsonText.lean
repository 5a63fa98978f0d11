import Scriptlet.Proofs.Codecs
import Scriptlet.Proofs.WrittenDecimals

/-!
# Written values

The codec of this library keeps what it writes: all values as JSON does (`Codec.plain_standard`),
and every floating point number that is finite (`Codec.plain_keepsFloat`).
-/

namespace Scriptlet.Json

/-! ## Strings -/

/-- A part of a string stands for a character: as itself, or by its number if it is a control. -/
def StringPart.Is (c : Char) (part : StringPart) : Prop :=
  part = .char c ∨ part = .unit c.toNat ∧ c.toNat < 32

/-- A text starts with a part that stands for a character, whatever follows. -/
def StartsWith (c : Char) (cs : List Char) : Prop :=
  ∃ part : StringPart, part.Is c ∧ ∀ rest,
    stringParts? (cs ++ rest) = (stringParts? rest).bind fun p => some (part :: p.1, p.2)

/-- A letter behind a backslash. -/
theorem startsWith_escape {e c : Char} (hc : escaped? e = some c) : StartsWith c ['\\', e] := by
  refine ⟨.char c, .inl rfl, fun rest => ?_⟩
  have hu : e ≠ 'u' := by
    rintro rfl
    cases hc
  rw [List.cons_append, List.cons_append, List.nil_append, stringParts?, hc]
  · rfl
  · intro a b c d rest he
    exact absurd he hu

/-- A character that stands for itself. -/
theorem startsWith_self {c : Char} (hquote : c ≠ '"') (hslash : c ≠ '\\') (hc : ¬ c.toNat < 32) :
    StartsWith c [c] := by
  refine ⟨.char c, .inl rfl, fun rest => ?_⟩
  rw [List.cons_append, List.nil_append, stringParts?, if_neg (not_or.mpr ⟨hc, hslash⟩)]
  · rfl
  · exact hquote
  · intro a b c' d rest' h
    exact absurd h hslash
  · intro e rest' h
    exact absurd h hslash

/-- The number of a control has two digits behind two zeros. -/
theorem controlDigits : ∀ n < 32,
    List.replicate (4 - (Nat.toDigits 16 n).length) '0' ++ Nat.toDigits 16 n =
        ['0', '0', Nat.digitChar (n / 16), Nat.digitChar (n % 16)] ∧
      codeUnit? '0' '0' (Nat.digitChar (n / 16)) (Nat.digitChar (n % 16)) = some n := by
  decide

/-- A control with its number. -/
theorem startsWith_unit {c : Char} (hc : c.toNat < 32) :
    StartsWith c ("\\u" ++ String.ofList (List.replicate (4 - (Nat.toDigits 16 c.toNat).length) '0'
      ++ Nat.toDigits 16 c.toNat)).toList := by
  obtain ⟨htext, hunit⟩ := controlDigits c.toNat hc
  refine ⟨.unit c.toNat, .inr ⟨rfl, hc⟩, fun rest => ?_⟩
  rw [String.toList_append, htext]
  simp only [String.toList_ofList]
  show stringParts? ('\\' :: 'u' :: '0' :: '0' :: _ :: _ :: rest) = _
  rw [stringParts?, hunit]
  rfl

/-- A written character is read as one part that stands for it. -/
theorem startsWith_escapedChar (c : Char) : StartsWith c (escapedChar c).toList := by
  rw [escapedChar]
  by_cases hquote : c = '"'
  · rw [if_pos hquote]
    exact startsWith_escape (hquote ▸ rfl)
  rw [if_neg hquote]
  by_cases hslash : c = '\\'
  · rw [if_pos hslash]
    exact startsWith_escape (hslash ▸ rfl)
  rw [if_neg hslash]
  split
  · next h => exact startsWith_escape (h ▸ rfl)
  split
  · next h => exact startsWith_escape (h ▸ rfl)
  split
  · next h => exact startsWith_escape (h ▸ rfl)
  split
  · next h => exact startsWith_escape (h ▸ rfl)
  split
  · next h => exact startsWith_escape (h ▸ rfl)
  split
  · next h => exact startsWith_unit h
  · next h =>
    rw [Char.toString_eq_singleton, String.toList_singleton]
    exact startsWith_self hquote hslash h

/-- A control character is joined to the others by its number. -/
theorem joinParts?_unit {n : Nat} (hn : n < 32) (parts : List StringPart) :
    joinParts? (.unit n :: parts) = (joinParts? parts).map (Char.ofNat n :: ·) := by
  have hlead : isLeadUnit n = false := by
    rw [isLeadUnit, Bool.and_eq_false_iff]
    exact .inl (decide_eq_false (by omega))
  have htrail : isTrailUnit n = false := by
    rw [isTrailUnit, Bool.and_eq_false_iff]
    exact .inl (decide_eq_false (by omega))
  cases parts with
  | nil => simp only [joinParts?, hlead, htrail, Bool.or_self, Bool.false_eq_true, if_false]
  | cons part parts =>
    cases part with
    | char c => simp only [joinParts?, hlead, htrail, Bool.or_self, Bool.false_eq_true, if_false]
    | unit m =>
      rw [joinParts?, hlead, htrail, if_neg Bool.false_ne_true, if_neg Bool.false_ne_true]

/-- The part of a character joins as the character. -/
theorem joinParts?_cons {c : Char} {part : StringPart} (h : part.Is c) (parts : List StringPart) :
    joinParts? (part :: parts) = (joinParts? parts).map (c :: ·) := by
  rcases h with rfl | ⟨rfl, hc⟩
  · rw [joinParts?]
  · rw [joinParts?_unit hc, Char.ofNat_toNat]

/-- Written characters up to a quote are read as the characters. -/
theorem stringParts?_escaped (cs rest : List Char) : ∃ parts,
    stringParts? ((cs.flatMap fun c => (escapedChar c).toList) ++ '"' :: rest) =
      some (parts, rest) ∧ joinParts? parts = some cs := by
  induction cs with
  | nil => exact ⟨[], rfl, rfl⟩
  | cons c cs ih =>
    obtain ⟨parts, hparts, hjoin⟩ := ih
    obtain ⟨part, hpart, hread⟩ := startsWith_escapedChar c
    refine ⟨part :: parts, ?_, ?_⟩
    · rw [List.flatMap_cons, List.append_assoc, hread, hparts]
      rfl
    · rw [joinParts?_cons hpart, hjoin]
      rfl

/-- The characters of a string with its quotes. -/
theorem toList_stringText (s : String) :
    (stringText s).toList = '"' :: (s.toList.flatMap fun c => (escapedChar c).toList) ++ ['"'] := by
  rw [stringText, String.toList_append, String.toList_append, String.toList_join, List.flatMap_map]
  rfl

/-- A written string is read as it is written. -/
theorem stringValue?_stringText (s : String) (rest : List Char) : ∃ body,
    (stringText s).toList ++ rest = '"' :: body ∧ stringValue? body = some (some s, rest) := by
  obtain ⟨parts, hparts, hjoin⟩ := stringParts?_escaped s.toList rest
  refine ⟨(s.toList.flatMap fun c => (escapedChar c).toList) ++ '"' :: rest, ?_, ?_⟩
  · rw [toList_stringText, List.append_assoc, List.cons_append]
    rfl
  · rw [stringValue?, hparts, Option.map_some]
    dsimp only
    rw [hjoin, Option.map_some, String.ofList_toList]

/-! ## Lines between brackets -/

/-- What follows a line between brackets: further lines, or the end. -/
def linesTail (level : Nat) (closing : List Char) : List String → List Char
  | [] => '\n' :: (Text.spaces (2 * level)).toList ++ closing
  | line :: rest =>
    ',' :: '\n' :: (Text.spaces (2 * (level + 1))).toList ++ line.toList
      ++ linesTail level closing rest

/-- Lines between brackets, behind the blanks before the first one. -/
def linesBody (level : Nat) (closing : List Char) : List String → List Char
  | [] => []
  | line :: rest => line.toList ++ linesTail level closing rest

/-- A comma and a line end stand before every further line. -/
theorem linesTail_cons (level : Nat) (closing : List Char) (line : String) (rest : List String) :
    linesTail level closing (line :: rest) =
      ',' :: ('\n' :: (Text.spaces (2 * (level + 1))).toList
        ++ linesBody level closing (line :: rest)) := by
  rw [linesTail, linesBody, List.append_assoc]
  rfl

theorem bracketed_nil (opening closing : String) (level : Nat) :
    bracketed opening closing level [] = opening ++ closing := rfl

/-- The characters of some lines with what separates and closes them. -/
theorem toList_lines (closing : String) (level : Nat) (line : String) (rest : List String) :
    (",\n".intercalate ((line :: rest).map (Text.spaces (2 * (level + 1)) ++ ·)) ++ "\n"
        ++ Text.spaces (2 * level) ++ closing).toList =
      (Text.spaces (2 * (level + 1))).toList ++ linesBody level closing.toList (line :: rest) := by
  induction rest generalizing line with
  | nil =>
    rw [List.map_singleton, String.intercalate_singleton]
    simp only [String.toList_append, linesBody, linesTail, List.append_assoc]
    rfl
  | cons next rest ih =>
    have hnext := ih next
    rw [List.map_cons] at hnext
    rw [List.map_cons, List.map_cons, String.intercalate_cons_cons]
    simp only [String.toList_append, List.append_assoc] at hnext ⊢
    rw [hnext]
    show _ = _ ++ (line.toList ++ linesTail level closing.toList (next :: rest))
    rw [linesTail_cons]
    rfl

/-- The characters of lines between brackets. -/
theorem toList_bracketed (opening closing : String) (level : Nat) (line : String)
    (rest : List String) :
    (bracketed opening closing level (line :: rest)).toList =
      opening.toList ++ '\n' :: (Text.spaces (2 * (level + 1))).toList
        ++ linesBody level closing.toList (line :: rest) := by
  rw [bracketed, if_neg (by rw [List.isEmpty_cons]; decide)]
  have hlines := toList_lines closing level line rest
  simp only [String.toList_append, List.append_assoc] at hlines ⊢
  rw [hlines]
  rfl

theorem skipGaps_of_not_gap {c : Char} {rest : List Char} (hc : isGap c = false) :
    skipGaps (c :: rest) = c :: rest := by
  rw [skipGaps, List.dropWhile_cons_of_neg (by rw [hc]; decide)]

/-- The blank behind a colon is skipped. -/
theorem skipGaps_space {c : Char} {rest : List Char} (hc : isGap c = false) :
    skipGaps (' ' :: c :: rest) = c :: rest := by
  rw [skipGaps, List.dropWhile_cons_of_pos rfl]
  exact skipGaps_of_not_gap hc

/-- The blanks at the start of a line are skipped. -/
theorem skipGaps_indent (n : Nat) {c : Char} {rest : List Char} (hc : isGap c = false) :
    skipGaps ('\n' :: (Text.spaces n).toList ++ c :: rest) = c :: rest := by
  have hblank : ∀ b ∈ '\n' :: (Text.spaces n).toList, isGap b = true := by
    intro b hb
    rcases List.mem_cons.mp hb with rfl | hb
    · rfl
    · rw [Text.spaces, String.toList_ofList] at hb
      rw [List.eq_of_mem_replicate hb]
      rfl
  rw [skipGaps, List.dropWhile_append_of_pos hblank]
  exact skipGaps_of_not_gap hc

/-- What follows a line ends the value on the line. -/
theorem endsValue_linesTail (level : Nat) (closing : List Char) (lines : List String)
    (rest : List Char) : EndsValue (linesTail level closing lines ++ rest) := by
  cases lines with
  | nil => exact .inr (.inr ⟨_, rfl⟩)
  | cons line lines => exact .inr (.inl ⟨_, rfl⟩)

/-! ## Values -/

variable {keeps : Float → Prop}

/-- A number starts with a minus sign or a digit. -/
theorem IsNumber.exists_first {lexeme : String} (h : IsNumber lexeme) :
    ∃ c t, lexeme.toList = c :: t ∧ (c = '-' ∨ c.isDigit = true) := by
  obtain ⟨n, exponentText, hspelled, rfl⟩ := h
  obtain ⟨c, ds, hwhole, hc⟩ := hspelled.exists_digit
  rw [String.toList_ofList, Numeral.text, Numeral.signText, hwhole]
  cases n.negative with
  | true => exact ⟨'-', _, rfl, .inl rfl⟩
  | false => exact ⟨c, _, rfl, .inr hc⟩

/-- The text of a number is read as the number, or it is `null` and the number is not finite. -/
theorem Number.Writable.text_cases {keeps : Float → Prop} {v : Number} (h : v.Writable keeps) :
    IsNumber v.text ∧ ofLexeme? v.text = some v ∧ v.portable = number (some v) ∨
      v.text = "null" ∧ v.portable = null := by
  cases v with
  | whole n =>
    have hread : ofLexeme? (toString n) = some (.whole n) := by
      rw [ofLexeme?, wholeNumber?_toString h]
    exact .inl ⟨isNumber_toString_int n, hread, rfl⟩
  | float x =>
    rw [text, portable]
    cases htext : Decimal.Style.stored.finite? x with
    | none =>
      have hx : ¬ x.isFinite = true := by
        rw [← Decimal.isSome_finite? Decimal.Style.stored, htext]
        exact Bool.false_ne_true
      exact .inr ⟨rfl, if_neg hx⟩
    | some digits =>
      have hx : x.isFinite = true := by
        rw [← Decimal.isSome_finite? Decimal.Style.stored, htext, Option.isSome_some]
      obtain ⟨hnumber, hread⟩ := ofLexeme?_finite htext
      exact .inl ⟨hnumber, hread, if_pos hx⟩

/-- A text between brackets starts with the opening one. -/
theorem exists_bracketed (opening closing : String) (level : Nat) (lines : List String) :
    ∃ t, (bracketed opening closing level lines).toList = opening.toList ++ t := by
  rw [bracketed]
  split
  · exact ⟨_, String.toList_append ..⟩
  · simp only [String.toList_append, List.append_assoc]
    exact ⟨_, rfl⟩

/-- No blank starts a number. -/
theorem isGap_of_starts_number {c : Char} (hc : c = '-' ∨ c.isDigit = true) : isGap c = false := by
  refine Bool.eq_false_iff.mpr fun hgap => ?_
  rw [isGap] at hgap
  simp only [Bool.or_eq_true, beq_iff_eq] at hgap
  rcases hgap with ((rfl | rfl) | rfl) | rfl <;> exact absurd hc (by decide)

/-- A value starts with a character that is no blank and no closing bracket. -/
theorem Writable.exists_first {j : Json} (h : j.Writable keeps) (level : Nat) :
    ∃ c t, (j.pretty level).toList = c :: t ∧ isGap c = false ∧ c ≠ ']' ∧ c ≠ '\x7d' := by
  cases j with
  | null =>
    rw [pretty]
    exact ⟨'n', ['u', 'l', 'l'], by decide⟩
  | bool b =>
    rw [pretty]
    cases b with
    | true => exact ⟨'t', ['r', 'u', 'e'], by decide⟩
    | false => exact ⟨'f', ['a', 'l', 's', 'e'], by decide⟩
  | number value =>
    obtain ⟨v, rfl, hv⟩ := h
    rw [pretty, Option.map_some, Option.getD_some]
    rcases hv.text_cases with ⟨hnumber, -⟩ | ⟨htext, -⟩
    · obtain ⟨c, t, htext, hc⟩ := hnumber.exists_first
      refine ⟨c, t, htext, isGap_of_starts_number hc, ?_, ?_⟩ <;>
      · rintro rfl
        exact absurd hc (by decide)
    · rw [htext]
      exact ⟨'n', ['u', 'l', 'l'], by decide⟩
  | string text =>
    cases text with
    | none => cases h
    | some s => exact ⟨'"', _, toList_stringText s, by decide⟩
  | array items =>
    obtain ⟨t, ht⟩ := exists_bracketed "[" "]" level (prettyItems (level + 1) items)
    exact ⟨'[', t, ht, by decide⟩
  | object members =>
    obtain ⟨t, ht⟩ := exists_bracketed "\x7b" "\x7d" level (prettyMembers (level + 1) members)
    exact ⟨'\x7b', t, ht, by decide⟩

/-- A number is read by its lexeme. -/
theorem value?_number {d : Nat} {c : Char} {cs : List Char} (hc : c = '-' ∨ c.isDigit = true) :
    value? (d + 1) (c :: cs) = (numberLexeme? (c :: cs)).map fun p =>
      (number (Number.ofLexeme? (String.ofList p.1)), p.2) := by
  rw [value?] <;>
  · intro tail h
    cases h
    exact absurd hc (by decide)

/-- An array is read by its items, if the first character is not its end. -/
theorem value?_array {d : Nat} {c : Char} {cs rest : List Char} (hskip : skipGaps rest = c :: cs)
    (hc : c ≠ ']') :
    value? (d + 1) ('[' :: rest) = (items? d (c :: cs)).map fun p => (array p.1, p.2) := by
  rw [value?, hskip]
  split
  · next h =>
    cases h
    exact absurd rfl hc
  · rfl

/-- An object with members is read behind its opening brace. -/
theorem value?_object {d : Nat} {c : Char} {cs rest : List Char} (hskip : skipGaps rest = c :: cs)
    (hc : c ≠ '\x7d') :
    value? (d + 1) ('\x7b' :: rest) = (members? d (c :: cs)).map fun p => (object p.1, p.2) := by
  rw [value?, hskip]
  split
  · next h =>
    cases h
    exact absurd rfl hc
  · rfl

/-- A comma is followed by the other items. -/
theorem items?_next {d : Nat} {cs rest rest' : List Char} {item : Json}
    (hvalue : value? d cs = some (item, rest)) (hskip : skipGaps rest = ',' :: rest') :
    items? (d + 1) cs = (items? d (skipGaps rest')).map fun p => (item :: p.1, p.2) := by
  rw [items?, hvalue]
  simp only [Option.bind_eq_bind, Option.bind_some, hskip, Option.map_eq_bind]
  rfl

/-- A closing bracket ends the items. -/
theorem items?_last {d : Nat} {cs rest rest' : List Char} {item : Json}
    (hvalue : value? d cs = some (item, rest)) (hskip : skipGaps rest = ']' :: rest') :
    items? (d + 1) cs = some ([item], rest') := by
  rw [items?, hvalue]
  simp only [Option.bind_eq_bind, Option.bind_some, hskip]
  rfl

section Members

variable {d : Nat} {body cs rest rest' : List Char} {key : Option String} {value : Json}

/-- A comma is followed by the other members. -/
theorem members?_next (hkey : stringValue? body = some (key, ':' :: ' ' :: cs))
    (hfirst : skipGaps (' ' :: cs) = cs)
    (hvalue : value? d cs = some (value, rest)) (hskip : skipGaps rest = ',' :: rest') :
    members? (d + 1) ('"' :: body) =
      (members? d (skipGaps rest')).map fun p => ((key, value) :: p.1, p.2) := by
  have hcolon : skipGaps (':' :: ' ' :: cs) = ':' :: ' ' :: cs := rfl
  rw [members?, hkey]
  simp only [Option.bind_eq_bind, Option.bind_some, hcolon, hfirst, hvalue, hskip,
    Option.map_eq_bind]
  rfl

/-- A closing brace ends the members. -/
theorem members?_last (hkey : stringValue? body = some (key, ':' :: ' ' :: cs))
    (hfirst : skipGaps (' ' :: cs) = cs)
    (hvalue : value? d cs = some (value, rest)) (hskip : skipGaps rest = '\x7d' :: rest') :
    members? (d + 1) ('"' :: body) = some ([(key, value)], rest') := by
  have hcolon : skipGaps (':' :: ' ' :: cs) = ':' :: ' ' :: cs := rfl
  rw [members?, hkey]
  simp only [Option.bind_eq_bind, Option.bind_some, hcolon, hfirst, hvalue, hskip]
  rfl

end Members

/-! ## Reading what is written -/

/-- A value is read as it is written at a level, whatever follows it, if the depth is at least twice
the length of the text. -/
def Reads (level : Nat) (j : Json) : Prop :=
  ∀ d rest, EndsValue rest → 2 * ((j.pretty level).toList ++ rest).length ≤ d →
    value? d ((j.pretty level).toList ++ rest) = some (j.portable, rest)

/-- The items of an array at a level are read as they are written. -/
def ReadsItems (level : Nat) (items : List Json) : Prop :=
  ∀ d rest, 2 * (linesBody level [']'] (prettyItems (level + 1) items) ++ rest).length < d →
    items? d (linesBody level [']'] (prettyItems (level + 1) items) ++ rest) =
      some (portableItems items, rest)

/-- The members of an object at a level are read as they are written. -/
def ReadsMembers (level : Nat) (members : List (Option String × Json)) : Prop :=
  ∀ d rest, 2 * (linesBody level ['\x7d'] (prettyMembers (level + 1) members) ++ rest).length < d →
    members? d (linesBody level ['\x7d'] (prettyMembers (level + 1) members) ++ rest) =
      some (portableMembers members, rest)

/-- A text with a known first character leaves a depth to go down. -/
theorem exists_depth {d : Nat} {c : Char} {cs : List Char} (h : 2 * (c :: cs).length ≤ d) :
    ∃ k, d = k + 1 ∧ 2 * cs.length < k := by
  rw [List.length_cons] at h
  exact ⟨d - 1, by omega, by omega⟩

section

variable {level : Nat}

/-- A value is read as it is written if its text alone decides it, whatever follows. -/
theorem reads_of_text {j : Json} {c : Char} {cs : List Char}
    (htext : (j.pretty level).toList = c :: cs)
    (hvalue : ∀ k rest, value? (k + 1) (c :: cs ++ rest) = some (j.portable, rest)) :
    Reads level j := by
  intro d rest _ hd
  rw [htext] at hd ⊢
  obtain ⟨k, rfl, -⟩ := exists_depth hd
  exact hvalue k rest

/-- The word `null` is read back. -/
theorem reads_null : Reads level null := by
  have htext : (pretty level null).toList = ['n', 'u', 'l', 'l'] := by
    rw [pretty]
    decide
  exact reads_of_text htext fun _ _ => rfl

/-- The words for truth values are read back. -/
theorem reads_bool (b : Bool) : Reads level (bool b) := by
  cases b with
  | true =>
    have htext : (pretty level (bool true)).toList = ['t', 'r', 'u', 'e'] := by
      rw [pretty]
      decide
    exact reads_of_text htext fun _ _ => rfl
  | false =>
    have htext : (pretty level (bool false)).toList = ['f', 'a', 'l', 's', 'e'] := by
      rw [pretty]
      decide
    exact reads_of_text htext fun _ _ => rfl

/-- A number is read as it is written, and as `null` if it is not finite. -/
theorem reads_number {v : Number} (hv : v.Writable keeps) : Reads level (number (some v)) := by
  intro d rest hrest hd
  rw [pretty, Option.map_some, Option.getD_some] at hd ⊢
  rw [portable]
  rcases hv.text_cases with ⟨hnumber, hread, hportable⟩ | ⟨htext, hportable⟩
  · obtain ⟨c, t, htext, hc⟩ := hnumber.exists_first
    obtain ⟨n, exponentText, hspelled, hlexeme⟩ := hnumber
    have hsplit := numberLexeme?_of_spelled hspelled hrest
    rw [hlexeme, String.toList_ofList] at htext hd ⊢
    rw [htext] at hd hsplit hlexeme ⊢
    obtain ⟨k, rfl, -⟩ := exists_depth hd
    rw [List.cons_append, value?_number hc, ← List.cons_append, hsplit, Option.map_some,
      ← hlexeme, hread, hportable]
  · rw [htext] at hd ⊢
    obtain ⟨k, rfl, -⟩ := exists_depth hd
    rw [hportable]
    rfl

/-- A text is read back, with every character that was escaped. -/
theorem reads_string (s : String) : Reads level (string (some s)) := by
  intro d rest _ hd
  rw [pretty, Option.map_some, Option.getD_some] at hd ⊢
  obtain ⟨body, htext, hvalue⟩ := stringValue?_stringText s rest
  rw [htext] at hd ⊢
  obtain ⟨k, rfl, -⟩ := exists_depth hd
  rw [value?, hvalue]
  rfl

/-- The empty array is read back. -/
theorem reads_array_nil : Reads level (array []) := by
  have htext : (pretty level (array [])).toList = ['[', ']'] := by
    rw [pretty, prettyItems, bracketed_nil]
    decide
  exact reads_of_text htext fun _ _ => rfl

/-- The items of an array start with its first item. -/
theorem exists_linesBody_items (level : Nat) {item : Json} (hitem : item.Writable keeps)
    (items : List Json) (rest : List Char) :
    ∃ c t, linesBody level [']'] (prettyItems (level + 1) (item :: items)) ++ rest = c :: t ∧
      isGap c = false ∧ c ≠ ']' := by
  obtain ⟨c, t, hfirst, hgap, hc, -⟩ := hitem.exists_first (level + 1)
  rw [prettyItems, linesBody, hfirst]
  exact ⟨c, _, rfl, hgap, hc⟩

/-- An array is read back if its items are. -/
theorem reads_array {item : Json} {items : List Json} (hitem : item.Writable keeps)
    (hitems : ReadsItems level (item :: items)) : Reads level (array (item :: items)) := by
  intro d rest _ hd
  have htext : (pretty level (array (item :: items))).toList = '[' :: '\n' ::
      (Text.spaces (2 * (level + 1))).toList ++
        linesBody level [']'] (prettyItems (level + 1) (item :: items)) := by
    rw [pretty, prettyItems, toList_bracketed]
    rfl
  obtain ⟨c, t, hfirst, hgap, hc⟩ := exists_linesBody_items level hitem items rest
  rw [htext, List.append_assoc, List.cons_append] at hd ⊢
  obtain ⟨k, rfl, hk⟩ := exists_depth hd
  rw [List.length_append] at hk
  have hread := hitems k rest (by omega)
  rw [hfirst] at hread ⊢
  rw [value?_array (skipGaps_indent _ hgap) hc, hread]
  rfl

/-- The last item is followed by the closing bracket. -/
theorem readsItems_last {item : Json} (hitem : Reads (level + 1) item) :
    ReadsItems level [item] := by
  intro d rest hd
  obtain ⟨k, rfl⟩ : ∃ k, d = k + 1 := ⟨d - 1, by omega⟩
  rw [prettyItems, linesBody, List.append_assoc] at hd ⊢
  have hvalue := hitem k _ (endsValue_linesTail ..) (Nat.le_of_lt_succ hd)
  refine items?_last hvalue ?_
  rw [prettyItems, linesTail, List.append_assoc]
  exact skipGaps_indent _ rfl

/-- An item is followed by the others on lines of their own. -/
theorem readsItems_next {item next : Json} {items : List Json} (hitem : Reads (level + 1) item)
    (hnext : next.Writable keeps) (hitems : ReadsItems level (next :: items)) :
    ReadsItems level (item :: next :: items) := by
  intro d rest hd
  obtain ⟨k, rfl⟩ : ∃ k, d = k + 1 := ⟨d - 1, by omega⟩
  rw [prettyItems, linesBody, List.append_assoc] at hd ⊢
  have hvalue := hitem k _ (endsValue_linesTail ..) (Nat.le_of_lt_succ hd)
  obtain ⟨c, t, hfirst, hgap, -⟩ := exists_linesBody_items level hnext items rest
  have htail : linesTail level [']'] (prettyItems (level + 1) (next :: items)) ++ rest =
      ',' :: ('\n' :: (Text.spaces (2 * (level + 1))).toList ++ c :: t) := by
    rw [← hfirst, prettyItems, linesTail_cons, List.cons_append, List.append_assoc]
  have hread := hitems k rest
  rw [hfirst] at hread
  rw [htail] at hvalue hd ⊢
  have hlength : 2 * (c :: t).length < k := by
    simp only [List.length_append, List.length_cons] at hd ⊢
    omega
  have hcomma : isGap ',' = false := rfl
  rw [items?_next hvalue (skipGaps_of_not_gap hcomma), skipGaps_indent _ hgap, hread hlength,
    Option.map_some]
  rfl

/-- The empty object is read back. -/
theorem reads_object_nil : Reads level (object []) := by
  have htext : (pretty level (object [])).toList = ['\x7b', '\x7d'] := by
    rw [pretty, prettyMembers, bracketed_nil]
    decide
  exact reads_of_text htext fun _ _ => rfl

/-- A member starts with its name, and its value follows a colon. -/
theorem exists_memberText (level : Nat) (key : String) (value : Json)
    (members : List (Option String × Json)) (rest : List Char) : ∃ body,
    linesBody level ['\x7d'] (prettyMembers (level + 1) ((some key, value) :: members)) ++ rest =
        '"' :: body ∧
      stringValue? body = some (some key, ':' :: ' ' :: ((pretty (level + 1) value).toList ++
        (linesTail level ['\x7d'] (prettyMembers (level + 1) members) ++ rest))) ∧
      ((pretty (level + 1) value).toList ++
        (linesTail level ['\x7d'] (prettyMembers (level + 1) members) ++ rest)).length <
          body.length := by
  rw [prettyMembers, linesBody, Option.map_some, Option.getD_some]
  obtain ⟨body, htext, hvalue⟩ := stringValue?_stringText key (':' :: ' ' ::
    ((pretty (level + 1) value).toList ++
      (linesTail level ['\x7d'] (prettyMembers (level + 1) members) ++ rest)))
  refine ⟨body, ?_, hvalue, ?_⟩
  · rw [← htext]
    simp only [String.toList_append, List.append_assoc]
    rfl
  · have hlength := congrArg List.length htext
    rw [List.length_append, List.length_cons, List.length_cons, List.length_cons] at hlength
    omega

/-- An object is read back if its members are. -/
theorem reads_object {key : String} {value : Json} {members : List (Option String × Json)}
    (hmembers : ReadsMembers level ((some key, value) :: members)) :
    Reads level (object ((some key, value) :: members)) := by
  intro d rest _ hd
  have htext : (pretty level (object ((some key, value) :: members))).toList = '\x7b' :: '\n' ::
      (Text.spaces (2 * (level + 1))).toList ++
        linesBody level ['\x7d'] (prettyMembers (level + 1) ((some key, value) :: members)) := by
    rw [pretty, prettyMembers, toList_bracketed]
    rfl
  obtain ⟨body, hfirst, -⟩ := exists_memberText level key value members rest
  rw [htext, List.append_assoc, List.cons_append] at hd ⊢
  obtain ⟨k, rfl, hk⟩ := exists_depth hd
  rw [List.length_append] at hk
  have hread := hmembers k rest (by omega)
  rw [hfirst] at hread ⊢
  rw [value?_object (skipGaps_indent _ rfl) (by decide), hread]
  rfl

section Members

variable {key : String} {value : Json} (hwritable : value.Writable keeps)
  (hvalue : Reads (level + 1) value)
include hwritable hvalue

/-- The last member is followed by the closing brace. -/
theorem readsMembers_last : ReadsMembers level [(some key, value)] := by
  intro d rest hd
  obtain ⟨k, rfl⟩ : ∃ k, d = k + 1 := ⟨d - 1, by omega⟩
  obtain ⟨body, htext, hkey, hlength⟩ := exists_memberText level key value [] rest
  obtain ⟨c, t, hfirst, hgap, -⟩ := hwritable.exists_first (level + 1)
  have hends := endsValue_linesTail level ['\x7d'] (prettyMembers (level + 1) []) rest
  rw [htext, List.length_cons] at hd
  have hread := hvalue k _ hends (by omega)
  rw [htext]
  refine members?_last hkey ?_ hread ?_
  · rw [hfirst]
    exact skipGaps_space hgap
  · rw [prettyMembers, linesTail, List.append_assoc]
    exact skipGaps_indent _ rfl

/-- A member is followed by the others on lines of their own. -/
theorem readsMembers_next {next : String} {second : Json}
    {members : List (Option String × Json)}
    (hmembers : ReadsMembers level ((some next, second) :: members)) :
    ReadsMembers level ((some key, value) :: (some next, second) :: members) := by
  intro d rest hd
  obtain ⟨k, rfl⟩ : ∃ k, d = k + 1 := ⟨d - 1, by omega⟩
  obtain ⟨body, htext, hkey, hlength⟩ :=
    exists_memberText level key value ((some next, second) :: members) rest
  obtain ⟨c, t, hfirst, hgap, -⟩ := hwritable.exists_first (level + 1)
  obtain ⟨body', hnext, -⟩ := exists_memberText level next second members rest
  have htail : linesTail level ['\x7d'] (prettyMembers (level + 1) ((some next, second) :: members))
      ++ rest = ',' :: ('\n' :: (Text.spaces (2 * (level + 1))).toList ++ '"' :: body') := by
    rw [← hnext, prettyMembers, linesTail_cons, List.cons_append, List.append_assoc]
  have hread := hmembers k rest
  rw [hnext] at hread
  have hends := endsValue_linesTail level ['\x7d']
    (prettyMembers (level + 1) ((some next, second) :: members)) rest
  rw [htext, List.length_cons] at hd
  have hvalue := hvalue k _ hends (by omega)
  rw [htail] at hvalue hkey hlength
  have hcomma : isGap ',' = false := rfl
  have hquote : isGap '"' = false := rfl
  have hrest : 2 * ('"' :: body').length < k := by
    simp only [List.length_append, List.length_cons] at hlength ⊢
    omega
  rw [htext, members?_next hkey (by rw [hfirst]; exact skipGaps_space hgap) hvalue
    (skipGaps_of_not_gap hcomma), skipGaps_indent _ hquote, hread hrest, Option.map_some]
  rfl

end Members

end

mutual

/-- A value that can be written is read as its text holds it. -/
theorem Writable.reads : ∀ {j : Json} (level : Nat), j.Writable keeps → Reads level j
  | null, _, _ => reads_null
  | bool b, _, _ => reads_bool b
  | number _, _, ⟨_, hvalue, hv⟩ => hvalue ▸ reads_number hv
  | string (some s), _, _ => reads_string s
  | array [], _, _ => reads_array_nil
  | array (_ :: _), level, h => reads_array h.1 (WritableItems.reads level h nofun)
  | object [], _, _ => reads_object_nil
  | object ((some _, _) :: _), level, h => reads_object (WritableMembers.reads level h nofun)

/-- The items of an array are read back, by induction on the values. -/
theorem WritableItems.reads : ∀ {items : List Json} (level : Nat), WritableItems keeps items →
    items ≠ [] → ReadsItems level items
  | [_], level, h, _ => readsItems_last (Writable.reads (level + 1) h.1)
  | _ :: _ :: _, level, h, _ =>
    readsItems_next (Writable.reads (level + 1) h.1) h.2.1 (WritableItems.reads level h.2 nofun)

/-- The members of an object are read back, by induction on the values. -/
theorem WritableMembers.reads : ∀ {members : List (Option String × Json)} (level : Nat),
    WritableMembers keeps members → members ≠ [] → ReadsMembers level members
  | [(some _, _)], level, h, _ => readsMembers_last h.2.1 (Writable.reads (level + 1) h.2.1)
  | (some _, _) :: (some _, _) :: _, level, h, _ =>
    readsMembers_next h.2.1 (Writable.reads (level + 1) h.2.1)
      (WritableMembers.reads level h.2.2 nofun)

end

/-- The text of a value is read as what it holds of the value. -/
theorem Writable.read?_pretty {j : Json} (h : j.Writable keeps) :
    read? (j.pretty 0) = some j.portable := by
  obtain ⟨c, t, hfirst, hgap, -⟩ := h.exists_first 0
  have hvalue := h.reads 0 (2 * ((j.pretty 0).toList.length + 1)) [] (.inl rfl)
  rw [List.append_nil] at hvalue
  have hskip : skipGaps (j.pretty 0).toList = (j.pretty 0).toList := by
    rw [hfirst]
    exact skipGaps_of_not_gap hgap
  rw [read?, hskip, hvalue (by omega)]
  rfl

namespace Codec

/-- The codec of this library keeps JSON values. -/
theorem plain_standard : plain.Standard := fun _ h => h.read?_pretty

/-- The codec of this library keeps all floating point numbers that are finite. -/
theorem plain_keepsFloat {x : Float} (hx : x.isFinite = true) : plain.KeepsFloat x := by
  have hwritable : Writable (fun _ => True) (.number (some (.float x))) :=
    ⟨.float x, rfl, fun _ => trivial⟩
  have hread := hwritable.read?_pretty
  rwa [portable, Number.portable, if_pos hx] at hread

end Codec

end Scriptlet.Json
