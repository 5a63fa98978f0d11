import Mathlib.Data.List.TakeWhile
import Scriptlet.Token.Scan

/-!
# How a text is cut into tokens

The lexeme of a token is what stands for it in a text: its own text, between quotes if it is a
string.  A scan cuts a text into gaps and lexemes, one behind the other, up to the end of the text
or to the first character that starts no token (`Scan.cuts_fromPlace`).
-/

namespace Scriptlet

/-- What stands in a text for a token of a given kind and text. -/
def TokenKind.lexeme (kind : TokenKind) (text : List Char) : List Char :=
  match kind with
  | .string => '"' :: (text ++ ['"'])
  | _ => text

theorem TokenKind.lexeme_of_ne_string {kind : TokenKind} (h : kind ≠ .string) (text : List Char) :
    kind.lexeme text = text := by
  cases kind with
  | string => exact absurd rfl h
  | _ => rfl

/-! ## Single tokens -/

namespace Piece

theorem eq_of_isGap {c : Char} (h : isGap c = true) : c = ' ' ∨ c = '\t' := by
  simpa [isGap] using h

/-- The content of a string is followed by the closing quote. -/
theorem eq_of_stringContent? {cs content : List Char} (h : stringContent? cs = some content) :
    ∃ rest, cs = content ++ '"' :: rest := by
  fun_induction stringContent? cs generalizing content with
  | case1 => cases h
  | case2 rest =>
    cases h
    exact ⟨rest, rfl⟩
  | case3 => cases h
  | case4 c rest ih =>
    obtain ⟨inner, hinner, rfl⟩ := Option.map_eq_some_iff.mp h
    obtain ⟨behind, rfl⟩ := ih hinner
    exact ⟨behind, rfl⟩
  | case5 c rest _ _ _ ih =>
    obtain ⟨inner, hinner, rfl⟩ := Option.map_eq_some_iff.mp h
    obtain ⟨behind, rfl⟩ := ih hinner
    exact ⟨behind, rfl⟩

/-- A piece is read from the first characters of a text, which go on with `rest` behind it. -/
structure ReadFrom (found : Piece) (c : Char) (cs tail rest : List Char) : Prop where
  lexeme : found.kind.lexeme found.text = c :: tail
  split : cs = tail ++ rest
  extra : found.extra = tail.length
  kind : found.kind ≠ .endOfInput

/-- A piece that is its own lexeme. -/
theorem readFrom_of_text {found : Piece} {c : Char} {cs tail rest : List Char}
    (hkind : found.kind ≠ .string ∧ found.kind ≠ .endOfInput) (htext : found.text = c :: tail)
    (hsplit : cs = tail ++ rest) (hextra : found.extra = found.text.length - 1) :
    found.ReadFrom c cs tail rest := by
  refine ⟨?_, hsplit, ?_, hkind.2⟩
  · rw [TokenKind.lexeme_of_ne_string hkind.1, htext]
  · rw [hextra, htext, List.length_cons, Nat.add_sub_cancel]

theorem readFrom_word (c : Char) (cs : List Char) :
    ∃ tail rest, (word c cs).ReadFrom c cs tail rest := by
  have hkind : (word c cs).kind ≠ .string ∧ (word c cs).kind ≠ .endOfInput := by
    rw [word]
    dsimp only
    split <;> exact ⟨nofun, nofun⟩
  exact ⟨cs.takeWhile continuesName, cs.dropWhile continuesName,
    readFrom_of_text hkind rfl List.takeWhile_append_dropWhile.symm rfl⟩

/-- The text of a number is the leading digits, or these with a point and the digits behind it. -/
theorem text_number (c : Char) (cs : List Char) :
    ∃ tail rest, (number c cs).text = c :: tail ∧ cs = tail ++ rest := by
  have hcs : cs = cs.takeWhile Char.isDigit ++ cs.dropWhile Char.isDigit :=
    List.takeWhile_append_dropWhile.symm
  rw [number]
  dsimp only
  split
  · next d rest hdrop =>
    split
    · refine ⟨cs.takeWhile Char.isDigit ++ '.' :: d :: rest.takeWhile Char.isDigit,
        rest.dropWhile Char.isDigit, rfl, ?_⟩
      rw [List.append_assoc, List.cons_append, List.cons_append, List.takeWhile_append_dropWhile,
        ← hdrop]
      exact hcs
    · exact ⟨_, _, rfl, hcs⟩
  · exact ⟨_, _, rfl, hcs⟩

theorem readFrom_number (c : Char) (cs : List Char) :
    ∃ tail rest, (number c cs).ReadFrom c cs tail rest := by
  obtain ⟨tail, rest, htext, hsplit⟩ := text_number c cs
  exact ⟨tail, rest, readFrom_of_text ⟨nofun, nofun⟩ htext hsplit rfl⟩

/-- Characters of one sort end where a character of another sort stands. -/
theorem split_while {p : Char → Bool} {cs rest : List Char} (hcs : ∀ c ∈ cs, p c = true)
    (hrest : ∀ c ∈ rest.head?, p c = false) :
    (cs ++ rest).takeWhile p = cs ∧ (cs ++ rest).dropWhile p = rest := by
  rw [List.takeWhile_append_of_pos hcs, List.dropWhile_append_of_pos hcs]
  cases rest with
  | nil => exact ⟨List.append_nil cs, rfl⟩
  | cons c rest =>
    have hneg : ¬p c = true := by
      rw [hrest c rfl]
      decide
    rw [List.takeWhile_cons_of_neg hneg, List.dropWhile_cons_of_neg hneg, List.append_nil]
    exact ⟨rfl, rfl⟩

end Piece

open Piece in
/-- The token that a text starts with is read from its first characters, whatever its kind. -/
theorem readFrom_piece {c : Char} {cs : List Char} {found : Piece} (h : piece c cs = .ok found) :
    ∃ tail rest, found.ReadFrom c cs tail rest := by
  unfold piece at h
  split at h
  · cases h
    exact readFrom_number c cs
  split at h
  · cases h
    exact readFrom_word c cs
  split at h
  · next hquote =>
    split at h
    · next content hcontent =>
      cases h
      obtain ⟨rest, hcs⟩ := eq_of_stringContent? hcontent
      refine ⟨content ++ ['"'], rest, ?_, ?_, ?_, nofun⟩
      · rw [hquote]
        rfl
      · rw [hcs, List.append_assoc]
        rfl
      · rw [List.length_append]
        rfl
    · cases h
  split at h
  · cases h
    exact ⟨_, _, readFrom_of_text ⟨nofun, nofun⟩ rfl List.takeWhile_append_dropWhile.symm rfl⟩
  split at h
  · next mark hmark =>
    cases h
    have hpre := Operator.spelling_isPrefixOf_of_leading? hmark
    obtain ⟨rest, hrest⟩ := List.isPrefixOf_iff_prefix.mp hpre
    obtain ⟨d, tail, hspelling⟩ : ∃ d tail, mark.spelling.toList = d :: tail :=
      List.exists_cons_of_length_pos (Operator.spelling_length_pos mark)
    rw [hspelling, List.cons_append, List.cons.injEq] at hrest
    obtain ⟨rfl, hsplit⟩ := hrest
    exact ⟨tail, rest, readFrom_of_text ⟨nofun, nofun⟩ hspelling hsplit.symm rfl⟩
  split at h
  · cases h
    exact ⟨[], cs, rfl, rfl, rfl, nofun⟩
  · cases h

/-! ## Whole texts -/

namespace Scan

/-- A scan of a text from a place on: gaps and lexemes one behind the other, up to the end of the
text or to a fault. -/
inductive Cuts : Place → List Char → Scan → Prop
  | done {p : Place} {gap : List Char} (hgap : ∀ c ∈ gap, Piece.isGap c = true) :
      Cuts p gap ⟨[Token.endAt ((p.after gap).spanTo (p.after gap))], none⟩
  | stuck {p : Place} {gap : List Char} {c : Char} {rest : List Char} {fault : LexicalFault}
      (hgap : ∀ c ∈ gap, Piece.isGap c = true) (hfault : piece c rest = .error fault) :
      Cuts p (gap ++ c :: rest) ⟨[], some (fault.diagnostic (p.after gap))⟩
  | token {p : Place} {gap : List Char} {kind : TokenKind} {text lexeme rest : List Char}
      {scan : Scan} (hgap : ∀ c ∈ gap, Piece.isGap c = true) (hkind : kind ≠ .endOfInput)
      (hlexeme : lexeme = kind.lexeme text) (hne : lexeme ≠ [])
      (hrest : Cuts ((p.after gap).after lexeme) rest scan) :
      Cuts p (gap ++ (lexeme ++ rest)) (scan.cons
        ⟨kind, String.ofList text, (p.after gap).spanTo ((p.after gap).after lexeme)⟩)

/-- Reading gaps up to the end of the text. -/
theorem fromPlace_gap (p : Place) {gap : List Char} (hgap : ∀ c ∈ gap, Piece.isGap c = true) :
    fromPlace p gap = ⟨[Token.endAt ((p.after gap).spanTo (p.after gap))], none⟩ := by
  have hend : ∀ c ∈ ([] : List Char).head?, Piece.isGap c = false := nofun
  obtain ⟨htake, hdrop⟩ := Piece.split_while hgap hend
  rw [List.append_nil] at htake hdrop
  rw [fromPlace, htake]
  split
  · rfl
  · next hcons =>
    rw [hdrop] at hcons
    cases hcons

/-- Reading gaps up to a character of another kind. -/
theorem fromPlace_append (p : Place) {gap : List Char} (hgap : ∀ c ∈ gap, Piece.isGap c = true)
    {c : Char} (hc : Piece.isGap c = false) (rest : List Char) :
    fromPlace p (gap ++ c :: rest) =
      match piece c rest with
      | .error fault => ⟨[], some (fault.diagnostic (p.after gap))⟩
      | .ok found =>
        let stop := (p.after gap).after ((c :: rest).take (found.extra + 1))
        cons ⟨found.kind, String.ofList found.text, (p.after gap).spanTo stop⟩
          (fromPlace stop (rest.drop found.extra)) := by
  have hbody : ∀ d ∈ (c :: rest).head?, Piece.isGap d = false := by
    rintro _ ⟨⟩
    exact hc
  obtain ⟨htake, hdrop⟩ := Piece.split_while hgap hbody
  rw [fromPlace, htake]
  split
  · next hnil =>
    rw [hdrop] at hnil
    cases hnil
  · next d more hcons =>
    rw [hdrop] at hcons
    cases hcons
    rfl

/-- Every text is a gap and what follows it. -/
theorem exists_gap (cs : List Char) : ∃ gap body, cs = gap ++ body ∧
    (∀ c ∈ gap, Piece.isGap c = true) ∧ ∀ c ∈ body.head?, Piece.isGap c = false := by
  refine ⟨cs.takeWhile Piece.isGap, cs.dropWhile Piece.isGap,
    List.takeWhile_append_dropWhile.symm, fun c hc => List.all_eq_true.mp List.all_takeWhile c hc,
    fun c hc => ?_⟩
  have hhead := List.head?_dropWhile_not Piece.isGap cs
  rw [Option.mem_def.mp hc] at hhead
  simpa using hhead

/-- Reading a text from a place on cuts it into gaps and lexemes. -/
theorem cuts_fromPlace (p : Place) (cs : List Char) : Cuts p cs (fromPlace p cs) := by
  induction hlen : cs.length using Nat.strongRecOn generalizing p cs with
  | ind n ih =>
    obtain ⟨gap, body, rfl, hgap, hbody⟩ := exists_gap cs
    cases body with
    | nil =>
      rw [List.append_nil, fromPlace_gap p hgap]
      exact .done hgap
    | cons c rest =>
      rw [fromPlace_append p hgap (hbody c rfl)]
      cases hpiece : piece c rest with
      | error fault => exact .stuck hgap hpiece
      | ok found =>
        obtain ⟨tail, behind, hread⟩ := readFrom_piece hpiece
        have htake : (c :: rest).take (found.extra + 1) = c :: tail := by
          rw [hread.extra, hread.split, List.take_succ_cons, List.take_left]
        have hdrop : rest.drop found.extra = behind := by
          rw [hread.extra, hread.split, List.drop_left]
        have hcs : c :: rest = (c :: tail) ++ behind := by
          rw [hread.split]
          rfl
        simp only [htake, hdrop]
        rw [hcs]
        refine .token hgap hread.kind hread.lexeme.symm (List.cons_ne_nil _ _) ?_
        refine ih behind.length ?_ _ behind rfl
        rw [← hlen, hcs]
        simp only [List.length_append, List.length_cons]
        omega

end Scan

end Scriptlet
