import Mathlib.Data.String.Basic
import Scriptlet.Proofs.Lexemes

/-!
# Lexing loses nothing

The tokens of a source text stand in it one behind the other, with nothing but spaces and tabs
between them, and every token is written where its span says.  So the text can be put together again
from its tokens and gaps, up to its end or to the fault that ended the reading
(`Scan.ofString_lossless`).  The same tokens come one by one out of a lexer that is asked for them.
-/

namespace Scriptlet

open String (utf8Len)

/-! ## Slices of a source text -/

/-- The characters of a source text between two offsets. -/
def slice (source : String) (start stop : Nat) : String :=
  String.Pos.Raw.extract source ⟨start⟩ ⟨stop⟩

/-- An offset lies between two characters of a source text or at one of its ends. -/
def IsBoundary (source : String) (offset : Nat) : Prop := String.Pos.Raw.IsValid source ⟨offset⟩

section Slices

variable {source : String} {before rest : List Char}

theorem slice_eq {cs : List Char} (h : source.toList = before ++ (cs ++ rest)) :
    slice source (utf8Len before) (utf8Len before + utf8Len cs) = String.ofList cs := by
  have hsource : source = String.ofList (before ++ cs ++ rest) := by
    rw [List.append_assoc, ← h, String.ofList_toList]
  rw [slice, hsource]
  exact String.extract_of_valid before cs rest

theorem slice_whole (source : String) : slice source 0 source.utf8ByteSize = source := by
  have h : source.toList = [] ++ (source.toList ++ []) := by rw [List.append_nil, List.nil_append]
  have hslice := slice_eq h
  rwa [String.utf8Len_nil, Nat.zero_add, String.utf8Len_toList, String.ofList_toList] at hslice

theorem isBoundary_iff {offset : Nat} :
    IsBoundary source offset ↔ ∃ l r, source.toList = l ++ r ∧ offset = utf8Len l := by
  rw [IsBoundary, String.Pos.Raw.isValid_iff_exists_append]
  constructor
  · rintro ⟨s₁, s₂, rfl, hoffset⟩
    refine ⟨s₁.toList, s₂.toList, String.toList_append, ?_⟩
    rw [String.utf8Len_toList]
    exact congrArg String.Pos.Raw.byteIdx hoffset
  · rintro ⟨l, r, hsource, rfl⟩
    refine ⟨String.ofList l, String.ofList r, ?_, ?_⟩
    · rw [← String.ofList_append, ← hsource, String.ofList_toList]
    · rw [String.rawEndPos_ofList]

/-- A later boundary is the end of some of the characters ahead. -/
theorem IsBoundary.exists_between (h : source.toList = before ++ rest) {offset : Nat}
    (hb : IsBoundary source offset) (hle : utf8Len before ≤ offset) :
    ∃ cs behind, rest = cs ++ behind ∧ offset = utf8Len before + utf8Len cs := by
  obtain ⟨l, r, hsource, rfl⟩ := isBoundary_iff.mp hb
  rcases List.append_eq_append_iff.mp (h.symm.trans hsource) with
    ⟨cs, rfl, hrest⟩ | ⟨cs, rfl, hr⟩
  · exact ⟨cs, r, hrest, String.utf8Len_append ..⟩
  · -- The other boundary is not later, so nothing lies between the two.
    have hcs : cs = [] := by
      rw [String.utf8Len_append] at hle
      exact String.utf8Len_eq_zero.mp (by omega)
    subst hcs
    exact ⟨[], rest, rfl, by simp⟩

end Slices

/-! ## Accounts of a text -/

/-- What stands in a text for a token. -/
def Token.written (t : Token) : String := String.ofList (t.kind.lexeme t.text.toList)

/-- The stretches before, between and behind tokens that stand between two offsets. -/
def gaps (first last : Nat) : List Token → List (Nat × Nat)
  | [] => [(first, last)]
  | t :: ts => (first, t.span.start) :: gaps t.span.stop last ts

/-- A text put together from its gaps and from what stands for its tokens. -/
def rebuilt (source : String) (first last : Nat) : List Token → String
  | [] => slice source first last
  | t :: ts => slice source first t.span.start ++ t.written ++ rebuilt source t.span.stop last ts

/-- Tokens account for the text between two offsets: they stand in it one behind the other, each
written where its span says, and there are only blanks around them. -/
structure Accounts (source : String) (first last : Nat) (tokens : List Token) : Prop where
  ordered : first ≤ last
  boundary : IsBoundary source last
  kind : ∀ t ∈ tokens, t.kind ≠ .endOfInput
  nonempty : ∀ t ∈ tokens, t.span.start < t.span.stop
  within : ∀ t ∈ tokens, first ≤ t.span.start ∧ t.span.stop ≤ last
  increasing : tokens.Pairwise fun a b => a.span.stop ≤ b.span.start
  boundaries : ∀ t ∈ tokens, IsBoundary source t.span.start ∧ IsBoundary source t.span.stop
  written : ∀ t ∈ tokens, slice source t.span.start t.span.stop = t.written
  blank : ∀ g ∈ gaps first last tokens,
    g.1 ≤ g.2 ∧ ∀ c ∈ (slice source g.1 g.2).toList, c = ' ' ∨ c = '\t'
  rebuilt : rebuilt source first last tokens = slice source first last

theorem Place.offset_after (p : Place) (cs : List Char) :
    (p.after cs).offset = p.offset + utf8Len cs := by
  induction cs generalizing p with
  | nil => rfl
  | cons c cs ih =>
    have hnext : (p.next c).offset = p.offset + c.utf8Size := by
      unfold next
      split <;> rfl
    rw [after_cons, ih, hnext, String.utf8Len_cons]
    omega

namespace Accounts

variable {source : String} {before gap lexeme rest : List Char}

/-- A gap that no token follows. -/
theorem nil (h : source.toList = before ++ (gap ++ rest))
    (hgap : ∀ c ∈ gap, Piece.isGap c = true) :
    Accounts source (utf8Len before) (utf8Len before + utf8Len gap) [] where
  ordered := Nat.le_add_right ..
  boundary := by
    refine isBoundary_iff.mpr ⟨before ++ gap, rest, ?_, (String.utf8Len_append ..).symm⟩
    rw [h, List.append_assoc]
  kind := nofun
  nonempty := nofun
  within := nofun
  increasing := .nil
  boundaries := nofun
  written := nofun
  blank := by
    intro g hg
    rw [List.mem_singleton.mp hg, slice_eq h, String.toList_ofList]
    exact ⟨Nat.le_add_right .., fun c hc => Piece.eq_of_isGap (hgap c hc)⟩
  rebuilt := rfl

/-- A gap, a token and the account of what follows it. -/
theorem cons (h : source.toList = before ++ (gap ++ (lexeme ++ rest)))
    (hgap : ∀ c ∈ gap, Piece.isGap c = true) (hne : lexeme ≠ []) {t : Token} {last : Nat}
    {tokens : List Token} (hkind : t.kind ≠ .endOfInput)
    (hwritten : t.written = String.ofList lexeme)
    (hstart : t.span.start = utf8Len (before ++ gap))
    (hstop : t.span.stop = utf8Len (before ++ gap ++ lexeme))
    (hrest : Accounts source t.span.stop last tokens) :
    Accounts source (utf8Len before) last (t :: tokens) := by
  have hgapped : source.toList = before ++ gap ++ (lexeme ++ rest) := by
    rw [h, List.append_assoc]
  have hread : source.toList = before ++ gap ++ lexeme ++ rest := by
    rw [hgapped, ← List.append_assoc]
  have hlen : utf8Len before ≤ t.span.start := by
    rw [hstart, String.utf8Len_append]
    exact Nat.le_add_right ..
  have hpos : t.span.start < t.span.stop := by
    rw [hstart, hstop, String.utf8Len_append (before ++ gap)]
    have : utf8Len lexeme ≠ 0 := fun hzero => hne (String.utf8Len_eq_zero.mp hzero)
    omega
  have hslice : slice source t.span.start t.span.stop = t.written := by
    rw [hwritten, hstart, hstop, String.utf8Len_append (before ++ gap)]
    exact slice_eq hgapped
  have hfirst : slice source (utf8Len before) t.span.start = String.ofList gap := by
    rw [hstart, String.utf8Len_append]
    exact slice_eq h
  have hordered := hrest.ordered
  refine ⟨by omega, hrest.boundary, ?_, ?_, ?_, ?_, ?_, ?_, ?_, ?_⟩
  · exact List.forall_mem_cons.mpr ⟨hkind, hrest.kind⟩
  · exact List.forall_mem_cons.mpr ⟨hpos, hrest.nonempty⟩
  · refine List.forall_mem_cons.mpr ⟨⟨hlen, hordered⟩, fun u hu => ?_⟩
    have := hrest.within u hu
    omega
  · exact List.pairwise_cons.mpr ⟨fun u hu => (hrest.within u hu).1, hrest.increasing⟩
  · refine List.forall_mem_cons.mpr ⟨⟨?_, ?_⟩, hrest.boundaries⟩
    · exact isBoundary_iff.mpr ⟨_, _, hgapped, hstart⟩
    · exact isBoundary_iff.mpr ⟨_, _, hread, hstop⟩
  · exact List.forall_mem_cons.mpr ⟨hslice, hrest.written⟩
  · refine List.forall_mem_cons.mpr ⟨⟨hlen, ?_⟩, hrest.blank⟩
    rw [hfirst, String.toList_ofList]
    exact fun c hc => Piece.eq_of_isGap (hgap c hc)
  · -- The text between the offsets is the gap, the lexeme and what the other tokens account for.
    obtain ⟨cs, behind, hcs, hlast⟩ := hrest.boundary.exists_between hread (hstop ▸ hordered)
    have htail : slice source t.span.stop last = String.ofList cs := by
      rw [hstop, hlast]
      exact slice_eq (hcs ▸ hread)
    have hwhole : slice source (utf8Len before) last = String.ofList (gap ++ lexeme ++ cs) := by
      have hsource : source.toList = before ++ (gap ++ lexeme ++ cs ++ behind) := by
        rw [hread, hcs]
        simp only [List.append_assoc]
      rw [hlast, ← slice_eq hsource]
      simp only [String.utf8Len_append, Nat.add_assoc]
    rw [Scriptlet.rebuilt, hrest.rebuilt, hfirst, hwritten, htail, hwhole, String.ofList_append,
      String.ofList_append]

end Accounts

namespace Scan

/-- Cutting a text accounts for it, up to its end or to the fault that ends the reading. -/
theorem Cuts.accounts {p : Place} {cs : List Char} {scan : Scan} (h : Cuts p cs scan)
    {source : String} {before : List Char} (hsource : source.toList = before ++ cs)
    (hp : p.offset = utf8Len before) :
    match scan.fault with
    | none => ∃ front line column,
        scan.tokens =
          front ++ [Token.endAt ⟨source.utf8ByteSize, source.utf8ByteSize, line, column⟩] ∧
        Accounts source (utf8Len before) source.utf8ByteSize front
    | some d => Accounts source (utf8Len before) d.span.start scan.tokens := by
  induction h generalizing before with
  | @done p gap hgap =>
    have hgapped : source.toList = before ++ (gap ++ []) := by rwa [List.append_nil]
    have hend : (p.after gap).offset = source.utf8ByteSize := by
      rw [Place.offset_after, hp, ← String.utf8Len_append, ← hsource, String.utf8Len_toList]
    refine ⟨[], (p.after gap).line, (p.after gap).column, ?_, ?_⟩
    · rw [Place.spanTo, hend]
      rfl
    · rw [← hend, Place.offset_after, hp]
      exact .nil hgapped hgap
  | @stuck p gap c rest fault hgap _ =>
    show Accounts source _ (p.after gap).offset []
    rw [Place.offset_after, hp]
    exact .nil hsource hgap
  | @token p gap kind text lexeme rest scan hgap hkind hlexeme hne _ ih =>
    have hstart : (p.after gap).offset = utf8Len (before ++ gap) := by
      rw [Place.offset_after, hp, String.utf8Len_append]
    have hstop : ((p.after gap).after lexeme).offset = utf8Len (before ++ gap ++ lexeme) := by
      rw [Place.offset_after, hstart, String.utf8Len_append (before ++ gap)]
    have hwritten : Token.written ⟨kind, String.ofList text,
        (p.after gap).spanTo ((p.after gap).after lexeme)⟩ = String.ofList lexeme := by
      rw [Token.written, hlexeme, String.toList_ofList]
    have hread : source.toList = before ++ gap ++ lexeme ++ rest := by
      simpa only [List.append_assoc] using hsource
    -- The rest of the text is accounted for from the end of the token on.
    have hih := ih hread hstop
    rw [← hstop] at hih
    -- With a fault the account ends where the fault starts, and without one at the end of the text.
    cases hfault : scan.fault with
    | none =>
      rw [hfault] at hih
      obtain ⟨front, line, column, htokens, hfront⟩ := hih
      simp only [Scan.cons, hfault]
      have hall := hfront.cons hsource hgap hne hkind hwritten hstart hstop
      exact ⟨_ :: front, line, column, by rw [htokens, List.cons_append], hall⟩
    | some d =>
      rw [hfault] at hih
      simp only [Scan.cons, hfault]
      exact .cons hsource hgap hne hkind hwritten hstart hstop hih

end Scan

/-! ## Tokens one by one -/

/-- A lexer on its way through a text: where it stands, what is ahead of it, and whether it has
yielded its last item. -/
structure Lexer where
  place : Place
  ahead : List Char
  finished : Bool

/-- What a lexer yields on the way: the tokens, and the fault that ends the reading. -/
def Scan.items (s : Scan) : List (Except Diagnostic Token) :=
  s.tokens.map .ok ++ s.fault.toList.map .error

namespace Lexer

/-- The lexer at the beginning of a text. -/
def ofString (source : String) : Lexer := ⟨.origin, source.toList, false⟩

/-- The next item, if there is one, and the lexer behind it. -/
def next (l : Lexer) : Option (Except Diagnostic Token) × Lexer :=
  if l.finished then (none, l)
  else
    let start := l.place.after (l.ahead.takeWhile Piece.isGap)
    match l.ahead.dropWhile Piece.isGap with
    | [] => (some (.ok (Token.endAt (start.spanTo start))), ⟨start, [], true⟩)
    | c :: rest =>
      match piece c rest with
      | .error fault => (some (.error (fault.diagnostic start)), ⟨start, c :: rest, true⟩)
      | .ok found =>
        let stop := start.after ((c :: rest).take (found.extra + 1))
        (some (.ok ⟨found.kind, String.ofList found.text, start.spanTo stop⟩),
          ⟨stop, rest.drop found.extra, false⟩)

/-- The item that a lexer yields when it has been asked for `n` others before. -/
def nth (l : Lexer) : Nat → Option (Except Diagnostic Token)
  | 0 => l.next.1
  | n + 1 => l.next.2.nth n

/-- A lexer that is finished yields nothing more. -/
theorem nth_of_finished {l : Lexer} (h : l.finished = true) (n : Nat) : l.nth n = none := by
  have hnext : l.next = (none, l) := if_pos h
  induction n with
  | zero => rw [nth, hnext]
  | succ n ih => rw [nth, hnext, ih]

/-- One item of a lexer is the first of the scan from its place on; the lexer behind it is finished
or yields the others. -/
theorem items_eq_next (p : Place) (cs : List Char) : ∃ item behind,
    next ⟨p, cs, false⟩ = (some item, behind) ∧
      (behind.finished = true ∧ (Scan.fromPlace p cs).items = [item] ∨
        behind.finished = false ∧ (Scan.fromPlace p cs).items =
          item :: (Scan.fromPlace behind.place behind.ahead).items) := by
  obtain ⟨gap, body, rfl, hgap, hbody⟩ := Scan.exists_gap cs
  obtain ⟨htake, hdrop⟩ := Piece.split_while hgap hbody
  simp only [next, htake, hdrop]
  cases body with
  | nil =>
    rw [List.append_nil, Scan.fromPlace_gap p hgap]
    exact ⟨_, _, rfl, .inl ⟨rfl, rfl⟩⟩
  | cons c rest =>
    rw [Scan.fromPlace_append p hgap (hbody c rfl)]
    dsimp only
    cases piece c rest with
    | error fault => exact ⟨_, _, rfl, .inl ⟨rfl, rfl⟩⟩
    | ok found => exact ⟨_, _, rfl, .inr ⟨rfl, rfl⟩⟩

/-- A lexer yields the items of the scan from its place on, and then nothing. -/
theorem nth_eq_items (p : Place) (cs : List Char) (n : Nat) :
    nth ⟨p, cs, false⟩ n = (Scan.fromPlace p cs).items[n]? := by
  induction n generalizing p cs with
  | zero =>
    obtain ⟨item, behind, hnext, ⟨-, hitems⟩ | ⟨-, hitems⟩⟩ := items_eq_next p cs
    all_goals
      rw [nth, hnext, hitems]
      rfl
  | succ n ih =>
    obtain ⟨item, behind, hnext, ⟨hend, hitems⟩ | ⟨hgo, hitems⟩⟩ := items_eq_next p cs
    · rw [nth, hnext, hitems, nth_of_finished hend]
      rfl
    · obtain ⟨place, ahead, finished⟩ := behind
      subst hgo
      rw [nth, hnext, hitems, List.getElem?_cons_succ]
      exact ih place ahead

end Lexer

/-- The tokens of a text account for all of it.  A lexer on the text yields them one by one and then
nothing.  A text that can be read ends with the one token for its end, an empty stretch behind the
last character, and the other tokens and the gaps around them are the text; one that cannot is
accounted for up to the character where the fault lies. -/
theorem Scan.ofString_lossless (source : String) :
    (∀ n, (Lexer.ofString source).nth n = (Scan.ofString source).items[n]?) ∧
    match (Scan.ofString source).fault with
    | none => ∃ front line column,
        (Scan.ofString source).tokens =
          front ++ [Token.endAt ⟨source.utf8ByteSize, source.utf8ByteSize, line, column⟩] ∧
        Accounts source 0 source.utf8ByteSize front ∧
        rebuilt source 0 source.utf8ByteSize front = source
    | some d => Accounts source 0 d.span.start (Scan.ofString source).tokens := by
  refine ⟨Lexer.nth_eq_items .origin source.toList, ?_⟩
  have hnone : source.toList = [] ++ source.toList := rfl
  have haccounts := (cuts_fromPlace .origin source.toList).accounts hnone rfl
  rw [← ofString] at haccounts
  cases hfault : (Scan.ofString source).fault with
  | none =>
    rw [hfault] at haccounts
    obtain ⟨front, line, column, htokens, hfront⟩ := haccounts
    exact ⟨front, line, column, htokens, hfront, hfront.rebuilt.trans (slice_whole source)⟩
  | some d =>
    rw [hfault] at haccounts
    exact haccounts

end Scriptlet
