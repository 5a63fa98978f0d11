import Scriptlet.Proofs.LongestMatch
import Scriptlet.Proofs.Unspanned

/-!
# Layout does not matter

Two source texts may differ in the spaces, tabs and comments between their tokens
(`Scan.Relaid`).  Then they have the same wording, and whatever has the same wording compiles to
the same program or is refused at the same stage (`Compile.layout_independent`).
-/

namespace Scriptlet

/-- Two results are alike: both succeed or both fail, with related answers. -/
inductive Alike {ε α : Type} (R : α → α → Prop) (S : ε → ε → Prop) :
    Except ε α → Except ε α → Prop
  | ok {a b : α} (h : R a b) : Alike R S (.ok a) (.ok b)
  | error {e f : ε} (h : S e f) : Alike R S (.error e) (.error f)

/-! ## Tokens with the same wording -/

/-- What two modules without a difference but spans have in common: the faults of scoping have the
same messages, or every use of a name has the same symbol up to spans. -/
theorem Module.alike_resolve {m n : Module} (h : m.unspanned = n.unspanned) :
    Alike (fun r q : Resolution => r.unspanned = q.unspanned)
      (fun fs gs => fs.map (fun f => f.diagnostic.message) = gs.map fun g => g.diagnostic.message)
      m.resolve n.resolve := by
  have hresolve := m.resolve_unspanned
  rw [h, n.resolve_unspanned] at hresolve
  have hmessages : ∀ fs : List LocatedScopeFault, fs.map (fun f => f.diagnostic.message) =
      (fs.map LocatedScopeFault.unspanned).map fun f => f.diagnostic.message := by
    intro fs
    rw [List.map_map]
    rfl
  cases hm : m.resolve with
  | ok r =>
    cases hn : n.resolve with
    | ok q =>
      rw [hm, hn] at hresolve
      exact .ok (Except.ok.inj hresolve).symm
    | error gs =>
      rw [hm, hn] at hresolve
      cases hresolve
  | error fs =>
    cases hn : n.resolve with
    | ok q =>
      rw [hm, hn] at hresolve
      cases hresolve
    | error gs =>
      rw [hm, hn] at hresolve
      refine .error ?_
      rw [hmessages fs, hmessages gs, Except.error.inj hresolve]

theorem Module.generate_eq {m n : Module} (h : m.unspanned = n.unspanned) :
    m.generate = n.generate := by
  rw [← m.generate_unspanned, h, n.generate_unspanned]

/-- Tokens with the same wording are both parsed, to modules that differ only in spans, or both
refused. -/
theorem Module.alike_parse {ts us : List Token} (h : wording ts = wording us) :
    Alike (fun m n : Module => m.unspanned = n.unspanned) (fun _ _ => True) (parse ts)
      (parse us) := by
  have hparse := unspan_parse h
  cases hts : parse ts with
  | ok m =>
    cases hus : parse us with
    | ok n =>
      rw [hts, hus] at hparse
      exact .ok (Except.ok.inj hparse)
    | error g =>
      rw [hts, hus] at hparse
      cases hparse
  | error f =>
    cases hus : parse us with
    | ok n =>
      rw [hts, hus] at hparse
      cases hparse
    | error g => exact .error trivial

/-! ## Texts with the same wording -/

namespace Scan

/-- What may stand between two tokens, in front of `rest`: spaces and tabs, and behind them a
comment up to the end of its line. -/
inductive Between : List Char → List Char → Prop
  | blank {gap : List Char} (hgap : ∀ c ∈ gap, Piece.isGap c = true) (rest : List Char) :
      Between gap rest
  | comment {gap cs rest : List Char} (hgap : ∀ c ∈ gap, Piece.isGap c = true)
      (hcs : ∀ c ∈ cs, c ≠ '\n') (hrest : ∀ c ∈ rest.head?, c = '\n') :
      Between (gap ++ '/' :: '/' :: cs) rest

/-- Two texts differ only in what stands between their tokens.  Where no token can be read, they may
go on in any way. -/
inductive Relaid : List Char → List Char → Prop
  | done {gap gap' : List Char} (h : Between gap []) (h' : Between gap' []) : Relaid gap gap'
  | stuck {gap gap' rest rest' : List Char} {c c' : Char}
      (hgap : ∀ c ∈ gap, Piece.isGap c = true) (hgap' : ∀ c ∈ gap', Piece.isGap c = true)
      (hc : Piece.isGap c = false) (hc' : Piece.isGap c' = false)
      (h : NoToken (c :: rest)) (h' : NoToken (c' :: rest')) :
      Relaid (gap ++ c :: rest) (gap' ++ c' :: rest')
  | token {gap gap' rest rest' text : List Char} {kind : TokenKind} (hkind : kind ≠ .comment)
      (hgap : Between gap (kind.lexeme text ++ rest))
      (hgap' : Between gap' (kind.lexeme text ++ rest')) (h : kind.Longest text rest)
      (h' : kind.Longest text rest') (hrest : Relaid rest rest') :
      Relaid (gap ++ (kind.lexeme text ++ rest)) (gap' ++ (kind.lexeme text ++ rest'))

/-- The wording of a text from a place on, and whether reading it fails. -/
def reading (p : Place) (cs : List Char) : List (TokenKind × String) × Bool :=
  (wording (fromPlace p cs).tokens, (fromPlace p cs).fault.isSome)

theorem wording_cons_comment {t : Token} (ht : t.kind = .comment) (tokens : List Token) :
    wording (t :: tokens) = wording tokens := by
  rw [wording, wording, List.filter_cons_of_neg]
  rw [ht]
  decide

/-- A comment between two tokens adds nothing to the wording. -/
theorem Between.exists_reading {gap rest : List Char} (h : Between gap rest) (p : Place) :
    ∃ q blanks, (∀ c ∈ blanks, Piece.isGap c = true) ∧
      reading p (gap ++ rest) = reading q (blanks ++ rest) := by
  cases h with
  | blank hgap => exact ⟨p, gap, hgap, rfl⟩
  | @comment gap cs _ hgap hcs hrest =>
    have hends : TokenKind.comment.EndsAt rest := hrest
    have hread := (TokenKind.Spells.comment hcs).readable hends
    refine ⟨(p.after gap).after (TokenKind.comment.lexeme ('/' :: '/' :: cs)), [], nofun, ?_⟩
    rw [List.append_assoc]
    show reading p (gap ++ (TokenKind.comment.lexeme ('/' :: '/' :: cs) ++ rest)) = _
    rw [reading, fromPlace_token p hgap hread]
    exact Prod.ext (wording_cons_comment rfl _) rfl

theorem Between.reading_eq {gap : List Char} (h : Between gap []) (p : Place) :
    reading p gap = ([(.endOfInput, "")], false) := by
  obtain ⟨q, blanks, hblanks, hq⟩ := h.exists_reading p
  simp only [List.append_nil] at hq
  rw [hq, reading, fromPlace_gap q hblanks]
  rfl

theorem reading_stuck (p : Place) {gap rest : List Char} {c : Char}
    (hgap : ∀ c ∈ gap, Piece.isGap c = true) (hc : Piece.isGap c = false)
    (h : NoToken (c :: rest)) : reading p (gap ++ c :: rest) = ([], true) := by
  obtain ⟨fault, hfault⟩ := noToken_iff_piece.mp h
  rw [reading, fromPlace_stuck p hgap hc hfault]
  rfl

/-- A token that is no comment adds its kind and its text to the wording. -/
theorem Between.reading_token {gap rest text : List Char} {kind : TokenKind}
    (hgap : Between gap (kind.lexeme text ++ rest)) (hkind : kind ≠ .comment)
    (h : kind.Longest text rest) (p : Place) :
    ∃ q, reading p (gap ++ (kind.lexeme text ++ rest)) =
      ((kind, String.ofList text) :: (reading q rest).1, (reading q rest).2) := by
  obtain ⟨q, blanks, hblanks, hq⟩ := hgap.exists_reading p
  refine ⟨(q.after blanks).after (kind.lexeme text), ?_⟩
  rw [hq, reading, fromPlace_token q hblanks h.readable]
  refine Prod.ext ?_ rfl
  dsimp only [cons]
  rw [wording, List.filter_cons_of_pos (by simpa using hkind)]
  rfl

/-- Texts that differ only in what stands between their tokens have the same wording, and both can
be read or none. -/
theorem Relaid.reading_eq {cs ds : List Char} (h : Relaid cs ds) (p q : Place) :
    reading p cs = reading q ds := by
  induction h generalizing p q with
  | done h h' => rw [h.reading_eq p, h'.reading_eq q]
  | stuck hgap hgap' hc hc' h h' => rw [reading_stuck p hgap hc h, reading_stuck q hgap' hc' h']
  | token hkind hgap hgap' h h' _ ih =>
    obtain ⟨p', hp⟩ := hgap.reading_token hkind h p
    obtain ⟨q', hq⟩ := hgap'.reading_token hkind h' q
    rw [hp, hq, ih p' q']

/-- A comment goes on to the end of its line. -/
theorem head_of_longest_comment {text rest : List Char}
    (h : TokenKind.comment.Longest text rest) :
    ∃ cs, text = '/' :: '/' :: cs ∧ (∀ c ∈ cs, c ≠ '\n') ∧ ∀ c ∈ rest.head?, c = '\n' := by
  obtain ⟨hspells, hlongest⟩ := h
  cases hspells with
  | @comment cs hcs =>
    refine ⟨cs, rfl, hcs, fun c hc => ?_⟩
    by_contra hne
    -- Otherwise the comment could take one more character.
    obtain ⟨behind, rfl⟩ : ∃ behind, rest = c :: behind := by
      cases rest with
      | nil => cases hc
      | cons d behind =>
        cases hc
        exact ⟨behind, rfl⟩
    have hmore : ∀ d ∈ cs ++ [c], d ≠ '\n' := by
      intro d hd
      rcases List.mem_append.mp hd with hd | hd
      · exact hcs d hd
      · rwa [List.mem_singleton.mp hd]
    have hle := hlongest .comment ('/' :: '/' :: (cs ++ [c])) (.comment hmore)
      ⟨behind, by simp [TokenKind.lexeme]⟩
    simp [TokenKind.lexeme] at hle

/-- How a text starts, and what it reads as: it has no token, or there is a character at which
nothing can be read, or a token behind what may stand between tokens. -/
theorem reading_cases (p : Place) (cs : List Char) :
    (Between cs [] ∧ reading p cs = ([(.endOfInput, "")], false)) ∨
    (∃ gap c rest, cs = gap ++ c :: rest ∧ (∀ c ∈ gap, Piece.isGap c = true) ∧
      Piece.isGap c = false ∧ NoToken (c :: rest) ∧ reading p cs = ([], true)) ∨
    ∃ gap kind text rest q, cs = gap ++ (TokenKind.lexeme kind text ++ rest) ∧ kind ≠ .comment ∧
      Between gap (kind.lexeme text ++ rest) ∧ kind.Longest text rest ∧
      reading p cs = ((kind, String.ofList text) :: (reading q rest).1, (reading q rest).2) := by
  cases split cs with
  | done hgap =>
    have hbetween : Between cs [] := .blank hgap []
    exact .inl ⟨hbetween, hbetween.reading_eq p⟩
  | stuck hgap hc hfault =>
    have hnone := noToken_iff_piece.mpr ⟨_, hfault⟩
    exact .inr (.inl ⟨_, _, _, rfl, hgap, hc, hnone, reading_stuck p hgap hc hnone⟩)
  | @token gap kind text rest hgap h _ =>
    by_cases hkind : kind = .comment
    · subst hkind
      obtain ⟨cs, rfl, hcs, hrest⟩ := head_of_longest_comment h
      have hbetween : Between (gap ++ '/' :: '/' :: cs) rest := .comment hgap hcs hrest
      rw [TokenKind.lexeme_of_ne_string (by decide), ← List.append_assoc]
      -- A comment ends at the end of its line, and the line end is the next token.
      cases rest with
      | nil =>
        rw [List.append_nil]
        exact .inl ⟨hbetween, hbetween.reading_eq p⟩
      | cons c rest =>
        obtain rfl := hrest c rfl
        have hread : TokenKind.newline.Readable ['\n'] rest := ⟨'\n', [], rfl, rfl, rfl⟩
        have hnext : Between (gap ++ '/' :: '/' :: cs) (TokenKind.newline.lexeme ['\n'] ++ rest) :=
          hbetween
        obtain ⟨q, hq⟩ := hnext.reading_token (by decide) hread.longest p
        exact .inr (.inr ⟨_, _, _, _, q, rfl, by decide, hnext, hread.longest, hq⟩)
    · have hbetween : Between gap (kind.lexeme text ++ rest) := .blank hgap _
      obtain ⟨q, hq⟩ := hbetween.reading_token hkind h p
      exact .inr (.inr ⟨_, _, _, _, q, rfl, hkind, hbetween, h, hq⟩)

/-- Two texts differ only in what stands between their tokens if they have the same wording and both
can be read or none. -/
theorem relaid_iff {cs ds : List Char} (p q : Place) :
    Relaid cs ds ↔ reading p cs = reading q ds := by
  refine ⟨fun h => h.reading_eq p q, fun heq => ?_⟩
  induction hlen : cs.length using Nat.strongRecOn generalizing cs ds p q with
  | ind n ih =>
    rcases reading_cases p cs with ⟨h, hp⟩ | ⟨gap, c, rest, rfl, hgap, hc, h, hp⟩ |
      ⟨gap, kind, text, rest, p', rfl, hkind, hgap, h, hp⟩ <;>
    rcases reading_cases q ds with ⟨h', hq⟩ | ⟨gap', c', rest', rfl, hgap', hc', h', hq⟩ |
      ⟨gap', kind', text', rest', q', rfl, hkind', hgap', h', hq⟩ <;>
    rw [hp, hq] at heq
    · exact .done h h'
    · cases heq
    · exact absurd (Prod.mk.inj (List.cons.inj (Prod.mk.inj heq).1).1).1.symm
        h'.spells.ne_endOfInput
    · cases heq
    · exact .stuck hgap hgap' hc hc' h h'
    · cases heq
    · exact absurd (Prod.mk.inj (List.cons.inj (Prod.mk.inj heq).1).1).1 h.spells.ne_endOfInput
    · cases heq
    · obtain ⟨hwords, hfault⟩ := Prod.mk.inj heq
      obtain ⟨hword, hrest⟩ := List.cons.inj hwords
      obtain ⟨rfl, htext⟩ := Prod.mk.inj hword
      obtain rfl := String.ofList_injective htext
      refine .token hkind hgap hgap' h h' (ih rest.length ?_ p' q' (Prod.ext hrest hfault) rfl)
      obtain ⟨c, tail, hlexeme, -⟩ := h.spells.exists_lexeme
      rw [← hlen, hlexeme]
      simp only [List.length_append, List.length_cons]
      omega

end Scan

/-! ## Compiling -/

/-- The stage that refuses a source text. -/
def CompileFault.stage : CompileFault → Stage
  | lexical _ => .lexical
  | syntactic _ => .syntactic
  | semantic _ => .semantic

namespace Compile

/-- What compiling makes of modules that differ only in spans. -/
theorem alike_ofModule {m n : Module} (h : m.unspanned = n.unspanned) (resolve : Bool) :
    Alike (fun p q : Program => p = q) (fun f g => f.stage = g.stage) (ofModule resolve m)
      (ofModule resolve n) := by
  cases resolve with
  | false => exact .ok (Module.generate_eq h)
  | true =>
    have hresolve := Module.alike_resolve h
    unfold ofModule checkNames
    cases hm : m.resolve <;> cases hn : n.resolve <;> rw [hm, hn] at hresolve <;> cases hresolve
    · exact .error rfl
    · exact .ok (Module.generate_eq h)

/-- Compiling a text is reading its tokens, parsing them and compiling the module. -/
theorem ofSource_eq (resolve : Bool) (source : String) :
    ofSource resolve source = match (Scan.ofString source).fault with
      | some d => .error (.lexical d)
      | none =>
        match Module.parse (Scan.ofString source).tokens with
        | .error fault => .error (.syntactic fault)
        | .ok m => ofModule resolve m := by
  unfold ofSource check tree tokens Scan.toExcept ofModule
  cases (Scan.ofString source).fault with
  | some d => rfl
  | none =>
    dsimp only
    cases hparse : Module.parse (Scan.ofString source).tokens with
    | error fault =>
      simp only [Except.mapError, bind, Except.bind, hparse]
    | ok m =>
      simp only [Except.mapError, bind, Except.bind, hparse]
      cases checkNames resolve m <;> rfl

/-- Compiling does not depend on layout.  Tokens that agree in kind and text up to comments,
wherever they stand, are both parsed or both refused; if they are parsed, the modules differ only
in spans, looking up their names gives the same messages or the same symbols up to spans, and
their programs are the same.  So two source texts that differ only in the spaces, tabs and
comments between their tokens have the same program, or are refused at the same stage. -/
theorem layout_independent :
    (∀ ts us, wording ts = wording us →
      Alike
        (fun m n : Module => m.unspanned = n.unspanned ∧ m.generate = n.generate ∧
          Alike (fun r q : Resolution => r.unspanned = q.unspanned)
            (fun fs gs => fs.map (fun f => f.diagnostic.message) =
              gs.map fun g => g.diagnostic.message)
            m.resolve n.resolve)
        (fun _ _ => True) (Module.parse ts) (Module.parse us)) ∧
    ∀ source text, Scan.Relaid source.toList text.toList → ∀ resolve,
      Alike (fun p q : Program => p = q) (fun f g => f.stage = g.stage) (ofSource resolve source)
        (ofSource resolve text) := by
  constructor
  · intro ts us h
    -- Tokens with the same wording are read alike.
    have hparse := Module.alike_parse h
    cases hts : Module.parse ts <;> cases hus : Module.parse us <;> rw [hts, hus] at hparse <;>
      cases hparse
    · exact .error trivial
    · next h => exact .ok ⟨h, Module.generate_eq h, Module.alike_resolve h⟩
  · intro source text h resolve
    -- Texts that differ in layout alone have tokens with the same wording.
    have hreading := h.reading_eq .origin .origin
    obtain ⟨hwording, hfault⟩ := Prod.mk.inj hreading
    rw [ofSource_eq, ofSource_eq]
    have hparse := Module.alike_parse hwording
    rw [← Scan.ofString, ← Scan.ofString] at hfault hparse
    cases hs : (Scan.ofString source).fault <;> cases ht : (Scan.ofString text).fault <;>
      rw [hs, ht] at hfault <;> cases hfault
    · dsimp only
      cases hm : Module.parse (Scan.ofString source).tokens <;>
        cases hn : Module.parse (Scan.ofString text).tokens <;> rw [hm, hn] at hparse <;>
        cases hparse
      · exact .error rfl
      · next h => exact alike_ofModule h resolve
    · exact .error rfl

/-- A declaration with single spaces between its tokens. -/
def spaced : String := "let a = 1\n"

/-- The same declaration with other blanks and a comment. -/
def commented : String := "\tlet  a=1 // one\n// two"

/-- The two declarations have the same program, and there is one. -/
theorem spaced_commented : Scan.Relaid spaced.toList commented.toList ∧
    ∃ p, ofSource true spaced = .ok p ∧ ofSource true commented = .ok p := by
  have hrelaid : Scan.Relaid spaced.toList commented.toList :=
    (Scan.relaid_iff .origin .origin).mpr (by decide +kernel)
  have hok : (ofSource true spaced).isOk = true := by decide +kernel
  have halike := layout_independent.2 spaced commented hrelaid true
  refine ⟨hrelaid, ?_⟩
  cases hs : ofSource true spaced with
  | error fault =>
    rw [hs] at hok
    cases hok
  | ok p =>
    rw [hs] at halike
    cases hc : ofSource true commented with
    | error fault =>
      rw [hc] at halike
      cases halike
    | ok q =>
      rw [hc] at halike
      cases halike with
      | ok h => exact ⟨p, rfl, by rw [h]⟩

end Compile

end Scriptlet
