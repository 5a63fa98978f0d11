import Mathlib
import Scriptlet.Proofs.Lexemes

/-!
# Reading what was written

The texts that a token of each kind may have, and how a list of tokens is written: with a space
between neighbours, and nothing behind a comment, which goes on to the end of its line.  Reading a
text written in this way gives the tokens again (`Scan.ofString_render`).
-/

namespace Scriptlet

/-! ## The texts of tokens -/

/-- What may stand between the quotes of a string: a quote or a backslash only behind a
backslash. -/
inductive StringBody : List Char → Prop
  | nil : StringBody []
  | plain {c : Char} {cs : List Char} (hquote : c ≠ '"') (hslash : c ≠ '\\')
      (hcs : StringBody cs) : StringBody (c :: cs)
  | escaped (c : Char) {cs : List Char} (hcs : StringBody cs) : StringBody ('\\' :: c :: cs)

/-- The texts that tokens of a kind may have. -/
inductive TokenKind.Spells : TokenKind → List Char → Prop
  | keyword (word : Keyword) : Spells (.keyword word) word.spelling.toList
  | identifier {c : Char} {cs : List Char} (hc : c.isAlpha ∨ c = '_')
      (hcs : ∀ d ∈ cs, d.isAlphanum ∨ d = '_')
      (hfree : ∀ word : Keyword, word.spelling ≠ String.ofList (c :: cs)) :
      Spells .identifier (c :: cs)
  | whole {c : Char} {cs : List Char} (hc : c.isDigit) (hcs : ∀ d ∈ cs, d.isDigit) :
      Spells .number (c :: cs)
  | fraction {c d : Char} {cs ds : List Char} (hc : c.isDigit) (hcs : ∀ e ∈ cs, e.isDigit)
      (hd : d.isDigit) (hds : ∀ e ∈ ds, e.isDigit) :
      Spells .number (c :: (cs ++ '.' :: d :: ds))
  | string {cs : List Char} (hcs : StringBody cs) : Spells .string cs
  | operator (mark : Operator) : Spells (.operator mark) mark.spelling.toList
  | newline : Spells .newline ['\n']
  | comment {cs : List Char} (hcs : ∀ c ∈ cs, c ≠ '\n') : Spells .comment ('/' :: '/' :: cs)

/-- A token to be written: a kind and a text that tokens of this kind may have. -/
structure Item where
  kind : TokenKind
  text : List Char
  spells : kind.Spells text

namespace Item

/-- What stands for an item in a text. -/
def written (i : Item) : List Char := i.kind.lexeme i.text

/-- What keeps an item and its neighbour apart. -/
def separator (i : Item) : List Char := if i.kind = .comment then [] else [' ']

/-- Items written one behind the other. -/
def render : List Item → List Char
  | [] => []
  | [i] => i.written
  | i :: j :: rest => i.written ++ (i.separator ++ render (j :: rest))

/-- A comment is followed by a newline, unless it is the last item. -/
def LinesEnd (items : List Item) : Prop :=
  items.IsChain fun i j => i.kind = .comment → j.kind = .newline

end Item

/-! ## Reading single tokens -/

/-- A text that cannot go on a token of a given kind: it is empty or starts with a space, or, behind
a comment, with a newline. -/
def TokenKind.EndsAt (kind : TokenKind) (rest : List Char) : Prop :=
  ∀ c ∈ rest.head?, c = if kind = .comment then '\n' else ' '

namespace Piece

/-- A sort of characters without blanks. -/
theorem not_isGap {p : Char → Bool} (hspace : p ' ' = false) (htab : p '\t' = false) {c : Char}
    (h : p c = true) : isGap c = false := by
  rw [← Bool.not_eq_true]
  intro hgap
  rcases eq_of_isGap hgap with rfl | rfl
  · exact Bool.false_ne_true (hspace.symm.trans h)
  · exact Bool.false_ne_true (htab.symm.trans h)

theorem not_isDigit_of_startsName {c : Char} (h : startsName c = true) : c.isDigit = false := by
  rcases Bool.or_eq_true_iff.mp h with h | h
  · grind [Char.isAlpha, Char.isUpper, Char.isLower, Char.isDigit]
  · rw [eq_of_beq h]
    rfl

theorem stringContent?_append {cs : List Char} (h : StringBody cs) (rest : List Char) :
    stringContent? (cs ++ '"' :: rest) = some cs := by
  induction h with
  | nil => rfl
  | plain hquote hslash _ ih =>
    rw [List.cons_append, stringContent?, ih, Option.map_some]
    · exact hquote
    · exact fun h _ => hslash h
    · exact fun _ _ h _ => hslash h
  | escaped c _ ih => rw [List.cons_append, List.cons_append, stringContent?, ih, Option.map_some]

/-- A word ends where no character of a name follows. -/
theorem word_append {c : Char} {cs rest : List Char} (hcs : ∀ d ∈ cs, continuesName d = true)
    (hrest : ∀ d ∈ rest.head?, continuesName d = false) :
    word c (cs ++ rest) = ⟨match Keyword.ofSpelling? (String.ofList (c :: cs)) with
      | some k => .keyword k
      | none => .identifier, c :: cs, cs.length⟩ := by
  rw [word, (split_while hcs hrest).1]
  rfl

/-- A number ends where neither a digit nor a point follows. -/
theorem number_whole {c : Char} {cs rest : List Char} (hcs : ∀ d ∈ cs, d.isDigit = true)
    (hrest : ∀ d ∈ rest.head?, d.isDigit = false ∧ d ≠ '.') :
    number c (cs ++ rest) = ⟨.number, c :: cs, cs.length⟩ := by
  obtain ⟨htake, hdrop⟩ := split_while hcs fun d hd => (hrest d hd).1
  simp only [number, htake, hdrop]
  split
  · exact absurd rfl (hrest '.' rfl).2
  · rfl

/-- A number with a point ends where no digit follows. -/
theorem number_fraction {c d : Char} {cs ds rest : List Char} (hcs : ∀ e ∈ cs, e.isDigit = true)
    (hd : d.isDigit = true) (hds : ∀ e ∈ ds, e.isDigit = true)
    (hrest : ∀ e ∈ rest.head?, e.isDigit = false) :
    number c (cs ++ '.' :: d :: (ds ++ rest)) =
      ⟨.number, c :: (cs ++ '.' :: d :: ds), (cs ++ '.' :: d :: ds).length⟩ := by
  have hpoint : ∀ e ∈ ('.' :: d :: (ds ++ rest)).head?, e.isDigit = false := by
    rintro _ ⟨⟩
    rfl
  obtain ⟨htake, hdrop⟩ := split_while hcs hpoint
  simp only [number, htake, hdrop, if_pos hd, (split_while hds hrest).1]
  rfl

end Piece

namespace TokenKind

open Piece

variable {kind : TokenKind} {text rest : List Char}

/-- A token is read in front of a text: its lexeme starts with a character that is no gap, and
exactly the lexeme is read. -/
def Readable (kind : TokenKind) (text rest : List Char) : Prop :=
  ∃ c tail, kind.lexeme text = c :: tail ∧ isGap c = false ∧
    piece c (tail ++ rest) = .ok ⟨kind, text, tail.length⟩

/-- A token that starts like a name is read up to its end. -/
theorem readable_word {c : Char} {cs : List Char} (hc : startsName c = true)
    (hcs : ∀ d ∈ cs, continuesName d = true) (hrest : ∀ d ∈ rest.head?, d = ' ')
    (hkind : (match Keyword.ofSpelling? (String.ofList (c :: cs)) with
      | some k => .keyword k
      | none => .identifier) = kind) : kind.Readable (c :: cs) rest := by
  have hlexeme : kind.lexeme (c :: cs) = c :: cs := by
    rw [← hkind]
    split <;> rfl
  have hstop : ∀ d ∈ rest.head?, continuesName d = false := by
    intro d hd
    rw [hrest d hd]
    rfl
  have hdigit : ¬c.isDigit = true := by
    rw [not_isDigit_of_startsName hc]
    decide
  refine ⟨c, cs, hlexeme, not_isGap rfl rfl hc, ?_⟩
  rw [piece, if_neg hdigit, if_pos hc, word_append hcs hstop, hkind]

/-- A mark is read up to its end: no longer mark goes on with a space. -/
theorem readable_operator (mark : Operator) (hrest : ∀ d ∈ rest.head?, d = ' ') :
    (TokenKind.operator mark).Readable mark.spelling.toList rest := by
  cases rest with
  | nil => cases mark <;> exact ⟨_, _, rfl, rfl, rfl⟩
  | cons d rest =>
    obtain rfl := hrest d rfl
    cases mark <;> exact ⟨_, _, rfl, rfl, rfl⟩

/-- A text that tokens of a kind may have is read back where the token ends. -/
theorem Spells.readable (h : kind.Spells text) (hrest : kind.EndsAt rest) :
    kind.Readable text rest := by
  cases h with
  | keyword word =>
    obtain ⟨c, cs, hspelling, hc, hcs⟩ : ∃ c cs, word.spelling.toList = c :: cs ∧
        startsName c = true ∧ cs.all continuesName = true := by
      cases word <;> exact ⟨_, _, rfl, rfl, rfl⟩
    rw [hspelling]
    refine readable_word hc (List.all_eq_true.1 hcs) hrest ?_
    rw [← hspelling, String.ofList_toList, Keyword.ofSpelling?_spelling]
  | @identifier c cs hc hcs hfree =>
    -- A name is read as such because it is the spelling of no reserved word.
    have hnone : Keyword.ofSpelling? (String.ofList (c :: cs)) = none := by
      refine List.find?_eq_none.mpr fun word _ => ?_
      rw [beq_iff_eq]
      exact hfree word
    refine readable_word ?_ (fun d hd => ?_) hrest (by rw [hnone])
    · simpa [startsName] using hc
    · simpa [continuesName] using hcs d hd
  | @whole c cs hc hcs =>
    refine ⟨c, cs, rfl, not_isGap rfl rfl hc, ?_⟩
    rw [piece, if_pos hc, number_whole hcs]
    intro d hd
    rw [hrest d hd]
    decide
  | @fraction c d cs ds hc hcs hd hds =>
    refine ⟨c, cs ++ '.' :: d :: ds, rfl, not_isGap rfl rfl hc, ?_⟩
    rw [piece, if_pos hc, List.append_assoc, List.cons_append, List.cons_append,
      number_fraction hcs hd hds]
    intro e he
    rw [hrest e he]
    rfl
  | string hcs =>
    refine ⟨'"', text ++ ['"'], rfl, rfl, ?_⟩
    rw [List.append_assoc, List.singleton_append, List.length_append]
    simp only [piece, stringContent?_append hcs]
    rfl
  | operator mark => exact readable_operator mark hrest
  | newline => exact ⟨'\n', [], rfl, rfl, rfl⟩
  | @comment cs hcs =>
    have hstop : ∀ c ∈ rest.head?, decide (c ≠ '\n') = false := by
      intro c hc
      rw [hrest c hc]
      rfl
    have htail : ∀ c ∈ '/' :: cs, decide (c ≠ '\n') = true :=
      List.forall_mem_cons.mpr ⟨rfl, fun c hc => decide_eq_true (hcs c hc)⟩
    refine ⟨'/', '/' :: cs, rfl, rfl, ?_⟩
    -- Two slashes are read as a comment before marks are tried.
    have hpiece : piece '/' ('/' :: cs ++ rest) =
        .ok ⟨.comment, '/' :: ('/' :: cs ++ rest).takeWhile (· ≠ '\n'),
          (('/' :: cs ++ rest).takeWhile (· ≠ '\n')).length⟩ := rfl
    rw [hpiece, (split_while htail hstop).1]

end TokenKind

/-! ## Reading whole texts -/

namespace Item

theorem written_of_newline {i : Item} (h : i.kind = .newline) : i.written = ['\n'] := by
  obtain ⟨kind, text, hspells⟩ := i
  subst h
  cases hspells
  rfl

theorem exists_render (i : Item) (items : List Item) :
    ∃ rest, render (i :: items) = i.written ++ rest := by
  cases items with
  | nil => exact ⟨[], (List.append_nil _).symm⟩
  | cons j items => exact ⟨_, rfl⟩

/-- An item is followed by a gap and the other items, and ends where they begin. -/
theorem render_cons (i : Item) (items : List Item) (h : LinesEnd (i :: items)) :
    ∃ gap, render (i :: items) = i.written ++ (gap ++ render items) ∧
      (∀ c ∈ gap, Piece.isGap c = true) ∧ i.kind.EndsAt (gap ++ render items) := by
  cases items with
  | nil => exact ⟨[], (List.append_nil _).symm, nofun, nofun⟩
  | cons j items =>
    refine ⟨i.separator, rfl, ?_, ?_⟩
    · intro c hc
      rw [separator] at hc
      split at hc
      · cases hc
      · rw [List.mem_singleton.mp hc]
        rfl
    · by_cases hcomment : i.kind = .comment
      · have hnewline : j.kind = .newline := (List.isChain_cons_cons.mp h).1 hcomment
        obtain ⟨rest, hrest⟩ := exists_render j items
        rw [separator, if_pos hcomment, hrest, written_of_newline hnewline]
        rintro _ ⟨⟩
        rw [if_pos hcomment]
      · rw [separator, if_neg hcomment]
        rintro _ ⟨⟩
        rw [if_neg hcomment]

/-- Reading rendered items from any place on, behind any gap. -/
theorem fromPlace_render {items : List Item} (h : LinesEnd items) (p : Place) {gap : List Char}
    (hgap : ∀ c ∈ gap, Piece.isGap c = true) :
    ∃ tokens, Scan.fromPlace p (gap ++ render items) = ⟨tokens, none⟩ ∧
      tokens.map (fun t => (t.kind, t.text)) =
        items.map (fun i => (i.kind, String.ofList i.text)) ++ [(.endOfInput, "")] := by
  induction items generalizing p gap with
  | nil =>
    rw [render, List.append_nil, Scan.fromPlace_gap p hgap]
    exact ⟨_, rfl, rfl⟩
  | cons i items ih =>
    obtain ⟨next, hrender, hnext, hends⟩ := render_cons i items h
    obtain ⟨c, tail, hlexeme, hc, hpiece⟩ := i.spells.readable hends
    rw [hrender, written, hlexeme, List.cons_append, Scan.fromPlace_append p hgap hc, hpiece]
    dsimp only
    rw [List.drop_left]
    obtain ⟨tokens, hscan, htokens⟩ := ih h.tail _ hnext
    rw [hscan, Scan.cons]
    exact ⟨_, rfl, congrArg (_ :: ·) htokens⟩

end Item

/-- Items that are rendered to a text are read from it: their kinds and texts in turn, and the end
of the input. -/
theorem Scan.ofString_render (items : List Item) (h : Item.LinesEnd items) :
    ∃ tokens, (Scan.ofString (String.ofList (Item.render items))).toExcept = .ok tokens ∧
      tokens.map (fun t => (t.kind, t.text)) =
        items.map (fun i => (i.kind, String.ofList i.text)) ++ [(.endOfInput, "")] := by
  have hgap : ∀ c ∈ ([] : List Char), Piece.isGap c = true := nofun
  obtain ⟨tokens, hscan, htokens⟩ := Item.fromPlace_render h .origin hgap
  refine ⟨tokens, ?_, htokens⟩
  rw [List.nil_append] at hscan
  rw [Scan.ofString, String.toList_ofList, hscan, Scan.toExcept]

/-- A division mark, a comment full of them, and a string that is an escaped quote. -/
theorem Scan.ofString_render_slashes :
    Item.LinesEnd [⟨_, _, .operator .slash⟩, ⟨_, _, @TokenKind.Spells.comment ['/'] (by simp)⟩,
      ⟨_, _, .newline⟩, ⟨_, _, .string (.escaped '"' .nil)⟩] ∧
    ∃ tokens, (Scan.ofString "/ ///\n \"\\\"\"").toExcept = .ok tokens ∧
      tokens.map (fun t => (t.kind, t.text)) = [(.operator .slash, "/"), (.comment, "///"),
        (.newline, "\n"), (.string, "\\\""), (.endOfInput, "")] := by
  refine ⟨?lines, Scan.ofString_render _ ?lines⟩
  simp [Item.LinesEnd]

end Scriptlet
