import Mathlib
import Scriptlet.Proofs.WrittenTokens

/-!
# Tokens are as long as they can be

Which token a text starts with can be said without the scanner: the longest lexeme of all that the
text starts with (`TokenKind.Longest`).  The scanner reads just that token (`longest_of_piece`,
`TokenKind.Longest.readable`), and it stops where no lexeme starts (`noToken_iff_piece`).  So a scan
can be followed token by token without looking at how single tokens are read.
-/

namespace Scriptlet

/-- A token of a kind and a text is the longest that can be read in front of `rest`. -/
structure TokenKind.Longest (kind : TokenKind) (text rest : List Char) : Prop where
  spells : kind.Spells text
  longest : ∀ kind' text', TokenKind.Spells kind' text' →
    kind'.lexeme text' <+: kind.lexeme text ++ rest →
    (kind'.lexeme text').length ≤ (kind.lexeme text).length

/-- No token can be read at the beginning of a text. -/
def NoToken (cs : List Char) : Prop :=
  ∀ kind text, TokenKind.Spells kind text → ¬kind.lexeme text <+: cs

/-! ## What is read is a token -/

namespace Piece

/-- What is read between quotes can be written between quotes. -/
theorem stringBody_of_stringContent? {cs content : List Char}
    (h : stringContent? cs = some content) : StringBody content := by
  fun_induction stringContent? cs generalizing content with
  | case1 => cases h
  | case2 rest =>
    cases h
    exact .nil
  | case3 => cases h
  | case4 c rest ih =>
    obtain ⟨inner, hinner, rfl⟩ := Option.map_eq_some_iff.mp h
    exact .escaped c (ih hinner)
  | case5 c rest hquote hlone hslash ih =>
    obtain ⟨inner, hinner, rfl⟩ := Option.map_eq_some_iff.mp h
    refine .plain hquote ?_ (ih hinner)
    rintro rfl
    cases rest with
    | nil => exact hlone rfl rfl
    | cons d rest => exact hslash d rest rfl rfl

theorem isDigit_of_mem_takeWhile {cs : List Char} : ∀ d ∈ cs.takeWhile Char.isDigit,
    d.isDigit = true :=
  fun _ hd => List.all_eq_true.mp List.all_takeWhile _ hd

/-- What is read as a number is spelled as one. -/
theorem spells_number {c : Char} (hc : c.isDigit = true) (cs : List Char) :
    TokenKind.number.Spells (number c cs).text := by
  rw [number]
  dsimp only
  split
  · split
    · next hd => exact .fraction hc isDigit_of_mem_takeWhile hd isDigit_of_mem_takeWhile
    · exact .whole hc isDigit_of_mem_takeWhile
  · exact .whole hc isDigit_of_mem_takeWhile

/-- What is read as a word is spelled as a name or a reserved word. -/
theorem spells_word {c : Char} (hc : startsName c = true) (cs : List Char) :
    (word c cs).kind.Spells (word c cs).text := by
  have hcs : ∀ d ∈ cs.takeWhile continuesName, d.isAlphanum ∨ d = '_' := by
    intro d hd
    have hd := List.all_eq_true.mp List.all_takeWhile d hd
    simpa [continuesName] using hd
  rw [word]
  dsimp only
  split
  · next k hk =>
    have hspelling : k.spelling = String.ofList (c :: cs.takeWhile continuesName) := by
      simpa using List.find?_some hk
    rw [← String.toList_ofList (l := c :: _), ← hspelling]
    exact .keyword k
  · next hnone =>
    refine .identifier (by simpa [startsName] using hc) hcs fun word => ?_
    have hall := List.find?_eq_none.mp hnone word (by cases word <;> decide)
    simpa using hall

end Piece

open Piece in
/-- The token that a text starts with has a text that tokens of its kind may have. -/
theorem spells_piece {c : Char} {cs : List Char} {found : Piece} (h : piece c cs = .ok found) :
    found.kind.Spells found.text := by
  unfold piece at h
  split at h
  · next hc =>
    cases h
    exact spells_number hc cs
  split at h
  · next hc =>
    cases h
    exact spells_word hc cs
  split at h
  · split at h
    · next content hcontent =>
      cases h
      exact .string (stringBody_of_stringContent? hcontent)
    · cases h
  split at h
  · next hslashes =>
    cases h
    obtain ⟨rfl, hhead⟩ := hslashes
    obtain ⟨ds, rfl⟩ : ∃ ds, cs = '/' :: ds := by
      cases cs with
      | nil => cases hhead
      | cons d ds =>
        cases hhead
        exact ⟨ds, rfl⟩
    show TokenKind.comment.Spells ('/' :: '/' :: ds.takeWhile (· ≠ '\n'))
    refine .comment fun d hd => ?_
    simpa using List.all_eq_true.mp List.all_takeWhile d hd
  split at h
  · next mark hmark =>
    cases h
    exact .operator mark
  split at h
  · next hc =>
    cases h
    rw [hc]
    exact .newline
  · cases h

/-! ## No longer token could be read -/

/-- Marks of one character stand behind those of two in the table. -/
theorem Operator.pairwise_all :
    all.Pairwise fun o o' => o'.spelling.toList.length ≤ o.spelling.toList.length := by
  decide

/-- If a text starts with a mark, one that is at least as long is found. -/
theorem Operator.exists_leading? {cs : List Char} {mark : Operator}
    (h : mark.spelling.toList <+: cs) :
    ∃ o, leading? cs = some o ∧ mark.spelling.toList.length ≤ o.spelling.toList.length := by
  have hmem : mark ∈ all := by cases mark <;> decide
  have hstarts : mark.spelling.toList.isPrefixOf cs = true := List.isPrefixOf_iff_prefix.mpr h
  obtain ⟨o, ho⟩ : ∃ o, leading? cs = some o :=
    Option.isSome_iff_exists.mp (List.find?_isSome.mpr ⟨mark, hmem, hstarts⟩)
  refine ⟨o, ho, ?_⟩
  -- The mark that is found is the first in the table, so the other one is no longer.
  obtain ⟨-, before, behind, hall, hbefore⟩ := List.find?_eq_some_iff_append.mp ho
  have hpairs := pairwise_all
  rw [hall] at hpairs hmem
  rcases List.mem_append.mp hmem with hmem | hmem
  · have hnot := hbefore mark hmem
    rw [hstarts] at hnot
    cases hnot
  rcases List.mem_cons.mp hmem with rfl | hmem
  · exact Nat.le_refl _
  · exact (List.pairwise_cons.mp (List.pairwise_append.mp hpairs).2.1).1 mark hmem

namespace Piece

/-- Characters of one sort at the beginning of a text are among those that are taken. -/
theorem length_le_takeWhile {p : Char → Bool} {ds cs : List Char} (hds : ∀ d ∈ ds, p d = true)
    (h : ds <+: cs) : ds.length ≤ (cs.takeWhile p).length := by
  obtain ⟨rest, rfl⟩ := h
  rw [List.takeWhile_append_of_pos hds, List.length_append]
  exact Nat.le_add_right ..

/-- A number takes all digits that follow. -/
theorem length_takeWhile_le_extra_number (c : Char) (cs : List Char) :
    (cs.takeWhile Char.isDigit).length ≤ (number c cs).extra := by
  rw [number]
  dsimp only
  split
  · split
    · rw [List.length_append, List.length_cons]
      omega
    · exact Nat.le_refl _
  · exact Nat.le_refl _

/-- A number takes a point and the digits behind it. -/
theorem extra_number_fraction {c d : Char} {cs ds rest : List Char}
    (hcs : ∀ e ∈ cs, e.isDigit = true) (hd : d.isDigit = true) (hds : ∀ e ∈ ds, e.isDigit = true) :
    (cs ++ '.' :: d :: ds).length ≤ (number c (cs ++ '.' :: d :: (ds ++ rest))).extra := by
  have hpoint : ∀ e ∈ ('.' :: d :: (ds ++ rest)).head?, e.isDigit = false := by
    rintro _ ⟨⟩
    rfl
  obtain ⟨htake, hdrop⟩ := split_while hcs hpoint
  simp only [number, htake, hdrop, if_pos hd]
  rw [List.takeWhile_append_of_pos hds]
  simp only [List.length_append, List.length_cons]
  omega

/-- A character that starts neither a number nor a name nor a string. -/
def StartsMark (c : Char) : Prop := c.isDigit = false ∧ startsName c = false ∧ c ≠ '"'

/-- A mark starts neither a number nor a name nor a string, and the one that starts as comments do
is a single slash. -/
theorem startsMark_of_spelling {mark : Operator} {c : Char} {tail : List Char}
    (h : mark.spelling.toList = c :: tail) : StartsMark c ∧ (c = '/' → tail = []) := by
  cases mark <;> cases h <;> exact ⟨⟨rfl, rfl, by decide⟩, by decide⟩

/-- Where neither a number nor a name nor a string starts, a comment is read before a mark, and a
mark before the end of a line. -/
theorem piece_of_startsMark {c : Char} (hc : StartsMark c) (cs : List Char) :
    piece c cs =
      if c = '/' ∧ cs.head? = some '/' then
        .ok ⟨.comment, c :: cs.takeWhile (· ≠ '\n'), (cs.takeWhile (· ≠ '\n')).length⟩
      else
        match Operator.leading? (c :: cs) with
        | some mark =>
          .ok ⟨.operator mark, mark.spelling.toList, mark.spelling.toList.length - 1⟩
        | none => if c = '\n' then .ok ⟨.newline, [c], 0⟩ else .error (.unexpected c) := by
  obtain ⟨hdigit, hname, hquote⟩ := hc
  rw [piece, hdigit, hname, if_neg Bool.false_ne_true, if_neg Bool.false_ne_true, if_neg hquote]
  rfl

variable {c : Char} {cs : List Char}

/-- Where a text starts with a word, a token that is at least as long is read. -/
theorem exists_piece_of_word {ds : List Char} (hc : startsName c = true)
    (hds : ∀ d ∈ ds, continuesName d = true) (h : c :: ds <+: c :: cs) :
    ∃ found, piece c cs = .ok found ∧ (c :: ds).length ≤ found.extra + 1 := by
  have hdigit : ¬c.isDigit = true := by
    rw [not_isDigit_of_startsName hc]
    decide
  refine ⟨word c cs, by rw [piece, if_neg hdigit, if_pos hc], ?_⟩
  exact Nat.succ_le_succ (length_le_takeWhile hds (List.cons_prefix_cons.mp h).2)

/-- Where a text starts with a mark, a token that is at least as long is read. -/
theorem exists_piece_of_mark {mark : Operator} (h : mark.spelling.toList <+: c :: cs) :
    ∃ found, piece c cs = .ok found ∧ mark.spelling.toList.length ≤ found.extra + 1 := by
  obtain ⟨d, tail, hspelling⟩ : ∃ d tail, mark.spelling.toList = d :: tail :=
    List.exists_cons_of_length_pos (Operator.spelling_length_pos mark)
  obtain rfl : d = c := by
    rw [hspelling] at h
    exact (List.cons_prefix_cons.mp h).1
  obtain ⟨hstarts, hslash⟩ := startsMark_of_spelling hspelling
  rw [piece_of_startsMark hstarts]
  split
  · next hcomment =>
    -- The mark is a single slash, and the comment is longer.
    refine ⟨_, rfl, ?_⟩
    rw [hspelling, hslash hcomment.1, List.length_singleton]
    exact Nat.le_add_left ..
  · obtain ⟨o, ho, hlength⟩ := Operator.exists_leading? h
    rw [ho]
    refine ⟨_, rfl, Nat.le_trans hlength ?_⟩
    exact Nat.le_add_of_sub_le (Nat.le_refl _)

end Piece

open Piece in
/-- Where a lexeme starts, a token is read that is at least as long. -/
theorem exists_piece_of_spells {kind : TokenKind} {text : List Char} (h : kind.Spells text)
    {c : Char} {cs : List Char} (hstarts : kind.lexeme text <+: c :: cs) :
    ∃ found, piece c cs = .ok found ∧ (kind.lexeme text).length ≤ found.extra + 1 := by
  cases h with
  | keyword word =>
    obtain ⟨d, ds, hspelling, hd, hds⟩ : ∃ d ds, word.spelling.toList = d :: ds ∧
        startsName d = true ∧ ds.all continuesName = true := by
      cases word <;> exact ⟨_, _, rfl, rfl, rfl⟩
    change word.spelling.toList <+: c :: cs at hstarts
    show ∃ found, piece c cs = .ok found ∧ word.spelling.toList.length ≤ found.extra + 1
    rw [hspelling] at hstarts ⊢
    obtain rfl := (List.cons_prefix_cons.mp hstarts).1
    exact exists_piece_of_word hd (List.all_eq_true.mp hds) hstarts
  | @identifier d ds hd hds _ =>
    obtain rfl := (List.cons_prefix_cons.mp hstarts).1
    refine exists_piece_of_word ?_ (fun e he => ?_) hstarts
    · simpa [startsName] using hd
    · simpa [continuesName] using hds e he
  | @whole d ds hd hds =>
    obtain ⟨rfl, hds'⟩ := List.cons_prefix_cons.mp hstarts
    refine ⟨number d cs, by rw [piece, if_pos hd], Nat.succ_le_succ ?_⟩
    exact Nat.le_trans (length_le_takeWhile hds hds') (length_takeWhile_le_extra_number d cs)
  | @fraction d e ds es hd hds he hes =>
    obtain ⟨rfl, rest, hcs⟩ := List.cons_prefix_cons.mp hstarts
    refine ⟨number d cs, by rw [piece, if_pos hd], Nat.succ_le_succ ?_⟩
    rw [List.append_assoc, List.cons_append, List.cons_append] at hcs
    rw [← hcs]
    exact extra_number_fraction hds he hes
  | string hbody =>
    obtain ⟨rfl, rest, hcs⟩ := List.cons_prefix_cons.mp hstarts
    rw [List.append_assoc, List.singleton_append] at hcs
    refine ⟨⟨.string, text, text.length + 1⟩, ?_, ?_⟩
    · rw [← hcs]
      simp only [piece, stringContent?_append hbody]
      rfl
    · simp [TokenKind.lexeme]
  | operator mark => exact exists_piece_of_mark hstarts
  | newline =>
    obtain rfl := (List.cons_prefix_cons.mp hstarts).1
    rw [piece_of_startsMark ⟨rfl, rfl, by decide⟩, if_neg fun h => absurd h.1 (by decide)]
    -- Whatever is read here has at least the one character of a line end.
    cases Operator.leading? ('\n' :: cs) with
    | none => exact ⟨_, rfl, Nat.le_refl _⟩
    | some mark => exact ⟨_, rfl, Nat.le_add_left ..⟩
  | @comment ds hds =>
    obtain ⟨rfl, hds'⟩ := List.cons_prefix_cons.mp hstarts
    have hhead : cs.head? = some '/' := by
      obtain ⟨rest, rfl⟩ := hds'
      rfl
    rw [piece_of_startsMark ⟨rfl, rfl, by decide⟩, if_pos ⟨rfl, hhead⟩]
    refine ⟨_, rfl, Nat.succ_le_succ (length_le_takeWhile ?_ hds')⟩
    exact List.forall_mem_cons.mpr ⟨rfl, fun d hd => decide_eq_true (hds d hd)⟩

/-! ## The scanner reads the longest token -/

/-- What is read is the longest token that the text can start with. -/
theorem longest_of_piece {c : Char} {cs tail rest : List Char} {found : Piece}
    (h : piece c cs = .ok found) (hread : found.ReadFrom c cs tail rest) :
    found.kind.Longest found.text rest := by
  refine ⟨spells_piece h, fun kind text hspells hstarts => ?_⟩
  rw [hread.lexeme, List.cons_append, ← hread.split] at hstarts
  obtain ⟨other, hother, hlength⟩ := exists_piece_of_spells hspells hstarts
  rw [h] at hother
  cases hother
  rw [hread.lexeme, List.length_cons, ← hread.extra]
  exact hlength

/-- Nothing is read just where no token can be read. -/
theorem noToken_iff_piece {c : Char} {cs : List Char} :
    NoToken (c :: cs) ↔ ∃ fault, piece c cs = .error fault := by
  constructor
  · intro h
    cases hpiece : piece c cs with
    | error fault => exact ⟨fault, rfl⟩
    | ok found =>
      obtain ⟨tail, rest, hread⟩ := readFrom_piece hpiece
      refine absurd ⟨rest, ?_⟩ (h found.kind found.text (spells_piece hpiece))
      rw [hread.lexeme, hread.split, List.cons_append]
  · rintro ⟨fault, hfault⟩ kind text hspells hstarts
    obtain ⟨found, hfound, -⟩ := exists_piece_of_spells hspells hstarts
    rw [hfault] at hfound
    cases hfound

namespace TokenKind

variable {kind kind' : TokenKind} {text text' rest rest' : List Char}

/-- A lexeme stands for one token only. -/
theorem Spells.eq_of_lexeme (h : kind.Spells text) (h' : kind'.Spells text')
    (heq : kind.lexeme text = kind'.lexeme text') : kind = kind' ∧ text = text' := by
  have hends : ∀ kind : TokenKind, kind.EndsAt [] := fun _ _ => nofun
  obtain ⟨c, tail, hlexeme, -, hpiece⟩ := h.readable (hends kind)
  obtain ⟨c', tail', hlexeme', -, hpiece'⟩ := h'.readable (hends kind')
  rw [hlexeme, hlexeme', List.cons.injEq] at heq
  obtain ⟨rfl, rfl⟩ := heq
  rw [hpiece] at hpiece'
  cases hpiece'
  exact ⟨rfl, rfl⟩

/-- A token is written with at least one character, and the first is no gap. -/
theorem Spells.exists_lexeme (h : kind.Spells text) :
    ∃ c tail, kind.lexeme text = c :: tail ∧ Piece.isGap c = false := by
  have hends : kind.EndsAt [] := nofun
  obtain ⟨c, tail, hlexeme, hc, -⟩ := h.readable hends
  exact ⟨c, tail, hlexeme, hc⟩

theorem Spells.ne_endOfInput (h : kind.Spells text) : kind ≠ .endOfInput := by
  rintro rfl
  cases h

/-- The longest token is the one that is read. -/
theorem Longest.readable (h : kind.Longest text rest) : kind.Readable text rest := by
  obtain ⟨c, tail, hlexeme, hc⟩ := h.spells.exists_lexeme
  have hstarts : kind.lexeme text <+: c :: (tail ++ rest) := by
    rw [hlexeme]
    exact ⟨rest, rfl⟩
  obtain ⟨found, hpiece, hlength⟩ := exists_piece_of_spells h.spells hstarts
  obtain ⟨tail', behind, hread⟩ := readFrom_piece hpiece
  have hfound : found.kind.lexeme found.text <+: kind.lexeme text ++ rest := by
    rw [hread.lexeme, hlexeme, List.cons_append, hread.split]
    exact ⟨behind, rfl⟩
  have hsame : kind.lexeme text = found.kind.lexeme found.text := by
    have hle := h.longest _ _ (spells_piece hpiece) hfound
    refine List.IsPrefix.eq_of_length (List.prefix_of_prefix_length_le ⟨rest, rfl⟩ hfound ?_) ?_
    all_goals
      rw [hread.lexeme, List.length_cons, ← hread.extra] at hle ⊢
      omega
  obtain ⟨rfl, rfl⟩ := h.spells.eq_of_lexeme (spells_piece hpiece) hsame
  refine ⟨c, tail, hlexeme, hc, ?_⟩
  rw [hpiece]
  have htail : tail = tail' := (List.cons.inj (hlexeme.symm.trans hread.lexeme)).2
  rw [htail, ← hread.extra]

/-- The token that is read is the longest. -/
theorem Readable.longest (h : kind.Readable text rest) : kind.Longest text rest := by
  obtain ⟨c, tail, hlexeme, -, hpiece⟩ := h
  exact longest_of_piece hpiece ⟨hlexeme, rfl, rfl, (spells_piece hpiece).ne_endOfInput⟩

/-- A token stays the longest if less follows. -/
theorem Longest.of_prefix (h : kind.Longest text rest) (hrest : rest' <+: rest) :
    kind.Longest text rest' :=
  ⟨h.spells, fun kind' text' hspells hstarts =>
    h.longest kind' text' hspells
      (hstarts.trans ((List.prefix_append_right_inj _).mpr hrest))⟩

end TokenKind

/-! ## Scanning token by token -/

namespace Scan

variable {gap : List Char}

/-- A token is read behind a gap, and then the rest. -/
theorem fromPlace_token (p : Place) (hgap : ∀ c ∈ gap, Piece.isGap c = true) {kind : TokenKind}
    {text rest : List Char} (h : kind.Readable text rest) :
    fromPlace p (gap ++ (kind.lexeme text ++ rest)) =
      cons ⟨kind, String.ofList text,
          (p.after gap).spanTo ((p.after gap).after (kind.lexeme text))⟩
        (fromPlace ((p.after gap).after (kind.lexeme text)) rest) := by
  obtain ⟨c, tail, hlexeme, hc, hpiece⟩ := h
  rw [hlexeme, List.cons_append, fromPlace_append p hgap hc, hpiece]
  dsimp only
  rw [List.drop_left, List.take_succ_cons, List.take_left]

/-- Reading stops behind a gap where there is no token. -/
theorem fromPlace_stuck (p : Place) (hgap : ∀ c ∈ gap, Piece.isGap c = true) {c : Char}
    (hc : Piece.isGap c = false) {rest : List Char} {fault : LexicalFault}
    (h : piece c rest = .error fault) :
    fromPlace p (gap ++ c :: rest) = ⟨[], some (fault.diagnostic (p.after gap))⟩ := by
  rw [fromPlace_append p hgap hc, h]

/-- A text that is followed token by token: the longest token behind each gap, up to the end of the
text or to where there is no token. -/
inductive Split : List Char → Prop
  | done {gap : List Char} (hgap : ∀ c ∈ gap, Piece.isGap c = true) : Split gap
  | stuck {gap : List Char} {c : Char} {rest : List Char} {fault : LexicalFault}
      (hgap : ∀ c ∈ gap, Piece.isGap c = true) (hc : Piece.isGap c = false)
      (hfault : piece c rest = .error fault) : Split (gap ++ c :: rest)
  | token {gap : List Char} {kind : TokenKind} {text rest : List Char}
      (hgap : ∀ c ∈ gap, Piece.isGap c = true) (h : kind.Longest text rest)
      (hrest : Split rest) : Split (gap ++ (kind.lexeme text ++ rest))

/-- Every text can be followed token by token. -/
theorem split (cs : List Char) : Split cs := by
  induction hlen : cs.length using Nat.strongRecOn generalizing cs with
  | ind n ih =>
    obtain ⟨gap, body, rfl, hgap, hbody⟩ := exists_gap cs
    cases body with
    | nil =>
      rw [List.append_nil]
      exact .done hgap
    | cons c rest =>
      cases hpiece : piece c rest with
      | error fault => exact .stuck hgap (hbody c rfl) hpiece
      | ok found =>
        obtain ⟨tail, behind, hread⟩ := readFrom_piece hpiece
        have hcs : c :: rest = found.kind.lexeme found.text ++ behind := by
          rw [hread.lexeme, hread.split, List.cons_append]
        rw [hcs]
        refine .token hgap (longest_of_piece hpiece hread) (ih behind.length ?_ behind rfl)
        rw [← hlen, hread.split]
        simp only [List.length_append, List.length_cons]
        omega

end Scan

end Scriptlet
