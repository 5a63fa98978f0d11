import Scriptlet.Proofs.Extents
import Scriptlet.Proofs.LayoutIndependence
import Scriptlet.Proofs.Lossless

/-!
# Parts of a text read alone

A scan forgets what it has read, and a token stays the longest if less follows it.  So a text can be
cut in front of a token and behind one, and what lies between the cuts is read alone as it is read
in its place: the text between the first and the last of some tokens in a row has these tokens,
comments aside, and no fault (`Scan.wording_slice`).
-/

namespace Scriptlet

namespace Scan

/-- The tokens of a scan that are no comments. -/
def words (s : Scan) : List Token := s.tokens.filter fun t => t.kind != .comment

theorem words_cons_comment {t : Token} (ht : t.kind = .comment) (s : Scan) :
    (cons t s).words = s.words :=
  List.filter_cons_of_neg (by simp [ht])

theorem words_cons {t : Token} (ht : t.kind ≠ .comment) (s : Scan) :
    (cons t s).words = t :: s.words :=
  List.filter_cons_of_pos (by simpa using ht)

/-- A token stands behind some characters of a text that is read from a place on, and `front` is
read before it, however the text goes on. -/
structure StandsAt (p : Place) (before : List Char) (front : List Token) (kind : TokenKind)
    (text rest : List Char) (t : Token) : Prop where
  kind_ne : kind ≠ .comment
  longest : kind.Longest text rest
  token_eq : t = ⟨kind, String.ofList text,
    (p.after before).spanTo ((p.after before).after (kind.lexeme text))⟩
  /-- What is read if only some of the characters behind the token follow it. -/
  read : ∀ rest', rest' <+: rest →
    (fromPlace p (before ++ (kind.lexeme text ++ rest'))).words =
        front ++ t :: (fromPlace ((p.after before).after (kind.lexeme text)) rest').words ∧
      (fromPlace p (before ++ (kind.lexeme text ++ rest'))).fault =
        (fromPlace ((p.after before).after (kind.lexeme text)) rest').fault

section

variable {p : Place} {cs gap before text text' rest : List Char} {kind kind' : TokenKind}
  {front behind ts : List Token} {t : Token}

theorem standsAt_first (hgap : ∀ c ∈ gap, Piece.isGap c = true) (hkind : kind ≠ .comment)
    (hlongest : kind.Longest text rest) :
    StandsAt p gap [] kind text rest ⟨kind, String.ofList text,
      (p.after gap).spanTo ((p.after gap).after (kind.lexeme text))⟩ := by
  refine ⟨hkind, hlongest, rfl, fun rest' hrest => ?_⟩
  rw [fromPlace_token p hgap (hlongest.of_prefix hrest).readable]
  exact ⟨words_cons hkind _, rfl⟩

/-- A token of what follows another one is a token of the text. -/
theorem StandsAt.later (first : List Token) (hgap : ∀ c ∈ gap, Piece.isGap c = true)
    (hlongest : kind.Longest text (before ++ (kind'.lexeme text' ++ rest)))
    (hfirst : ∀ s, (cons ⟨kind, String.ofList text,
      (p.after gap).spanTo ((p.after gap).after (kind.lexeme text))⟩ s).words = first ++ s.words)
    (h : StandsAt ((p.after gap).after (kind.lexeme text)) before front kind' text' rest t) :
    StandsAt p (gap ++ (kind.lexeme text ++ before)) (first ++ front) kind' text' rest t := by
  have hafter : p.after (gap ++ (kind.lexeme text ++ before)) =
      ((p.after gap).after (kind.lexeme text)).after before := by
    rw [Place.after_append, Place.after_append]
  refine ⟨h.kind_ne, h.longest, hafter ▸ h.token_eq, fun rest' hrest => ?_⟩
  obtain ⟨hwords, hfault⟩ := h.read rest' hrest
  -- The first token is still the longest, since no more follows it than before.
  have hshorter : kind.Longest text (before ++ (kind'.lexeme text' ++ rest')) :=
    hlongest.of_prefix ((List.prefix_append_right_inj _).mpr
      ((List.prefix_append_right_inj _).mpr hrest))
  rw [List.append_assoc, List.append_assoc, fromPlace_token p hgap hshorter.readable, hafter,
    hfirst, List.append_assoc, ← hwords]
  exact ⟨rfl, hfault⟩

/-- Where a token of a text stands. -/
theorem Split.exists_standsAt (h : Split cs)
    (hwords : (fromPlace p cs).words = front ++ t :: behind) (hkind : t.kind ≠ .endOfInput) :
    ∃ before kind text rest, cs = before ++ (TokenKind.lexeme kind text ++ rest) ∧
      StandsAt p before front kind text rest t := by
  induction h generalizing p front with
  | done hgap =>
    rw [fromPlace_gap p hgap] at hwords
    cases front with
    | nil =>
      cases hwords
      exact absurd rfl hkind
    | cons u us => cases us <;> cases hwords
  | stuck hgap hc hfault =>
    rw [fromPlace_stuck p hgap hc hfault] at hwords
    cases front <;> cases hwords
  | @token gap kind text rest hgap hlongest _ ih =>
    rw [fromPlace_token p hgap hlongest.readable] at hwords
    -- A comment is no word, so it belongs to the gap before the next token.
    by_cases hcomment : kind = .comment
    · rw [words_cons_comment hcomment] at hwords
      obtain ⟨before, kind', text', rest', rfl, hstands⟩ := ih hwords
      refine ⟨gap ++ (kind.lexeme text ++ before), kind', text', rest', ?_, ?_⟩
      · simp only [List.append_assoc]
      · exact hstands.later [] hgap hlongest (words_cons_comment hcomment)
    · rw [words_cons hcomment] at hwords
      cases front with
      | nil =>
        obtain ⟨rfl, -⟩ := List.cons.inj hwords
        exact ⟨gap, kind, text, rest, rfl, standsAt_first hgap hcomment hlongest⟩
      | cons u us =>
        obtain ⟨rfl, hrest⟩ := List.cons.inj hwords
        obtain ⟨before, kind', text', rest', rfl, hstands⟩ := ih hrest
        refine ⟨gap ++ (kind.lexeme text ++ before), kind', text', rest', ?_, ?_⟩
        · simp only [List.append_assoc]
        · exact hstands.later [_] hgap hlongest (words_cons hcomment)

/-- What is read from a token on is read if the text starts there. -/
theorem exists_from (hwords : (fromPlace p cs).words = front ++ t :: behind)
    (hkind : t.kind ≠ .endOfInput) :
    ∃ before rest, cs = before ++ rest ∧
      (fromPlace (p.after before) rest).words = t :: behind ∧
      t.span.start = (p.after before).offset := by
  obtain ⟨before, kind, text, rest, rfl, hstands⟩ := (split cs).exists_standsAt hwords hkind
  refine ⟨before, kind.lexeme text ++ rest, rfl, ?_, ?_⟩
  · rw [(hstands.read rest (List.prefix_refl rest)).1] at hwords
    have hbehind := List.append_cancel_left hwords
    have hnone : ∀ c ∈ [], Piece.isGap c = true := nofun
    have hfirst := fromPlace_token (p.after before) hnone hstands.longest.readable
    rw [List.nil_append] at hfirst
    rw [hfirst, words_cons hstands.kind_ne, ← hbehind, hstands.token_eq]
    rfl
  · rw [hstands.token_eq]
    rfl

/-- What is read up to a token is read if the text ends there. -/
theorem exists_upto (hwords : (fromPlace p cs).words = front ++ t :: behind)
    (hkind : t.kind ≠ .endOfInput) :
    ∃ ds rest finish, cs = ds ++ rest ∧ (fromPlace p ds).fault = none ∧
      (fromPlace p ds).words = front ++ [t, Token.endAt finish] ∧
      t.span.stop = (p.after ds).offset := by
  obtain ⟨before, kind, text, rest, rfl, hstands⟩ := (split cs).exists_standsAt hwords hkind
  obtain ⟨hread, hfault⟩ := hstands.read [] (List.nil_prefix ..)
  have hend : fromPlace ((p.after before).after (kind.lexeme text)) [] = _ := fromPlace_gap _ nofun
  rw [hend, List.append_nil] at hread hfault
  refine ⟨before ++ kind.lexeme text, rest, _, (List.append_assoc ..).symm, hfault, hread, ?_⟩
  rw [hstands.token_eq, Place.after_append]
  rfl

/-- The text from the first to the last of some tokens in a row. -/
theorem exists_between (hwords : (fromPlace p cs).words = front ++ (ts ++ behind)) (hne : ts ≠ [])
    (hkind : ∀ t ∈ ts, t.kind ≠ .endOfInput) :
    ∃ before ds rest finish, cs = before ++ (ds ++ rest) ∧
      (fromPlace (p.after before) ds).fault = none ∧
      (fromPlace (p.after before) ds).words = ts ++ [Token.endAt finish] ∧
      (extent ts).start = (p.after before).offset ∧
      (extent ts).stop = ((p.after before).after ds).offset := by
  obtain ⟨u, us, rfl⟩ := List.exists_cons_of_ne_nil hne
  obtain ⟨before, rest, rfl, hfrom, hstart⟩ := exists_from hwords (hkind u (List.mem_cons_self ..))
  obtain ⟨inner, last, hlast⟩ := (List.eq_nil_or_concat' (u :: us)).resolve_left hne
  have hrow : (fromPlace (p.after before) rest).words = inner ++ last :: behind := by
    have hrest : (fromPlace (p.after before) rest).words = u :: us ++ behind := hfrom
    rw [hrest, hlast, List.append_assoc]
    rfl
  have hmem : last ∈ u :: us := hlast ▸ List.mem_append_right _ (List.mem_singleton.mpr rfl)
  obtain ⟨ds, rest, finish, rfl, hfault, hupto, hstop⟩ := exists_upto hrow (hkind last hmem)
  refine ⟨before, ds, rest, finish, rfl, hfault, ?_, hstart, ?_⟩
  · rw [hupto, hlast, List.append_assoc]
    rfl
  · rw [hlast, stop_extent_append inner (List.cons_ne_nil _ _), ← hstop]
    rfl

end

/-- What a text reads as does not depend on the place where it starts. -/
theorem reading_place (p q : Place) (cs : List Char) : reading p cs = reading q cs :=
  ((relaid_iff p p).mpr rfl).reading_eq p q

/-- The slice of a text from the first to the last of some tokens in a row can be read, and its
tokens are these, comments aside. -/
theorem wording_slice {source : String} {front ts behind : List Token}
    (hwords : (ofString source).words = front ++ (ts ++ behind)) (hne : ts ≠ [])
    (hkind : ∀ t ∈ ts, t.kind ≠ .endOfInput) :
    (ofString (slice source (extent ts).start (extent ts).stop)).fault = none ∧
      wording (ofString (slice source (extent ts).start (extent ts).stop)).tokens =
        ts.map (fun t => (t.kind, t.text)) ++ [(.endOfInput, "")] := by
  obtain ⟨before, ds, rest, finish, hsource, hfault, hds, hstart, hstop⟩ :=
    exists_between hwords hne hkind
  have hslice : slice source (extent ts).start (extent ts).stop = String.ofList ds := by
    have hbefore : (Place.origin.after before).offset = String.utf8Len before := by
      rw [Place.offset_after]
      exact Nat.zero_add _
    rw [hstart, hstop, Place.offset_after _ ds, hbefore]
    exact slice_eq hsource
  have hreading := reading_place .origin (Place.origin.after before) ds
  obtain ⟨hwording, hsome⟩ := Prod.mk.inj hreading
  rw [hslice, ofString, String.toList_ofList]
  constructor
  · rw [hfault] at hsome
    exact Option.isNone_iff_eq_none.mp (Option.isSome_eq_false_iff.mp hsome)
  · rw [hwording, wording]
    show (words _).map _ = _
    rw [hds, List.map_append]
    rfl

end Scan

end Scriptlet
