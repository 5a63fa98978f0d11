import Mathlib
import Scriptlet.Proofs.LongestMatch
import Scriptlet.Proofs.Lossless

/-!
# Lines and columns

A scanner counts lines and columns as it goes.  What it counts is what the text says: the line of a
place is told by the newlines before it, and the column by the characters behind the last of them
(`Place.origin_after`).  So every token stands on the line and in the column where its offset lies,
and so does the fault of a text that cannot be read, at the first character that nothing can be read
at (`Scan.ofString_positions`).
-/

namespace Scriptlet

open String (utf8Len)

/-- How many characters of a text stand behind its last newline. -/
def lastLineLength (cs : List Char) : Nat := (cs.rtakeWhile (· ≠ '\n')).length

/-- The line and the column of a span are those of the offset where it starts, which lies between
two characters of the source text. -/
structure Span.IsPlaced (source : String) (s : Span) : Prop where
  boundary : IsBoundary source s.start
  line : s.line = 1 + (slice source 0 s.start).toList.count '\n'
  column : s.column = 1 + lastLineLength (slice source 0 s.start).toList

/-! ## Counting along a text -/

theorem lastLineLength_newline (cs : List Char) : lastLineLength (cs ++ ['\n']) = 0 := by
  rw [lastLineLength, List.rtakeWhile_concat_neg]
  · rfl
  · decide

theorem lastLineLength_concat {c : Char} (hc : c ≠ '\n') (cs : List Char) :
    lastLineLength (cs ++ [c]) = lastLineLength cs + 1 := by
  have hpos : decide (c ≠ '\n') = true := decide_eq_true hc
  rw [lastLineLength, List.rtakeWhile_concat_pos (fun c => decide (c ≠ '\n')) cs c hpos,
    List.length_append]
  rfl

/-- The place behind some characters, counted from the beginning of the text. -/
theorem Place.origin_after (cs : List Char) :
    origin.after cs = ⟨utf8Len cs, 1 + cs.count '\n', 1 + lastLineLength cs⟩ := by
  induction cs using List.reverseRecOn with
  | nil => rfl
  | append_singleton cs c ih =>
    rw [after_append, ih, after_cons, after_nil, next, String.utf8Len_append, List.count_append]
    split
    · next hc =>
      subst hc
      rw [lastLineLength_newline]
      rfl
    · next hc =>
      rw [lastLineLength_concat hc, List.count_singleton]
      simp [hc, Nat.add_assoc]

/-- A span that starts where some characters of the source text end. -/
theorem Span.isPlaced_of_start {source : String} {before rest : List Char}
    (h : source.toList = before ++ rest) (stop : Nat) :
    Span.IsPlaced source ⟨(Place.origin.after before).offset, stop,
      (Place.origin.after before).line, (Place.origin.after before).column⟩ := by
  have hslice : (slice source 0 (utf8Len before)).toList = before := by
    have hcs : source.toList = [] ++ (before ++ rest) := h
    have hslice := slice_eq hcs
    rw [String.utf8Len_nil, Nat.zero_add] at hslice
    rw [hslice, String.toList_ofList]
  rw [Place.origin_after]
  exact ⟨isBoundary_iff.mpr ⟨before, rest, h, rfl⟩, by rw [hslice], by rw [hslice]⟩

/-! ## Along a scan -/

namespace Scan

/-- Every token of a scan starts behind some characters of the text. -/
theorem Split.exists_before {cs : List Char} (h : Split cs) (p : Place) :
    ∀ t ∈ (fromPlace p cs).tokens, ∃ before rest stop, cs = before ++ rest ∧
      t.span = ⟨(p.after before).offset, stop, (p.after before).line, (p.after before).column⟩ := by
  induction h generalizing p with
  | @done gap hgap =>
    rw [fromPlace_gap p hgap]
    intro t ht
    rw [List.mem_singleton.mp ht]
    exact ⟨gap, [], _, (List.append_nil gap).symm, rfl⟩
  | stuck hgap hc hfault =>
    rw [fromPlace_stuck p hgap hc hfault]
    exact nofun
  | @token gap kind text rest hgap hlongest _ ih =>
    rw [fromPlace_token p hgap hlongest.readable]
    refine List.forall_mem_cons.mpr ⟨⟨gap, _, _, rfl, rfl⟩, fun t ht => ?_⟩
    obtain ⟨before, behind, stop, hrest, hspan⟩ := ih _ t ht
    refine ⟨gap ++ (kind.lexeme text ++ before), behind, stop, ?_, ?_⟩
    · rw [hrest]
      simp only [List.append_assoc]
    · rw [hspan, Place.after_append, Place.after_append]

/-- A scan that fails stops at a character where nothing can be read, and what stands before it is
read in the same way if it stands alone. -/
theorem Split.exists_fault {cs : List Char} (h : Split cs) (p : Place) {d : Diagnostic}
    (hd : (fromPlace p cs).fault = some d) :
    ∃ before c rest fault, cs = before ++ c :: rest ∧ Piece.isGap c = false ∧
      piece c rest = .error fault ∧ d = fault.diagnostic (p.after before) ∧
      fromPlace p before = ⟨(fromPlace p cs).tokens ++
        [Token.endAt ((p.after before).spanTo (p.after before))], none⟩ := by
  induction h generalizing p with
  | done hgap =>
    rw [fromPlace_gap p hgap] at hd
    cases hd
  | @stuck gap c rest fault hgap hc hfault =>
    rw [fromPlace_stuck p hgap hc hfault] at hd ⊢
    cases hd
    exact ⟨gap, c, rest, fault, rfl, hc, hfault, rfl, fromPlace_gap p hgap⟩
  | @token gap kind text rest hgap hlongest _ ih =>
    rw [fromPlace_token p hgap hlongest.readable] at hd ⊢
    obtain ⟨before, c, behind, fault, hrest, hc, hfault, rfl, hbefore⟩ := ih _ hd
    refine ⟨gap ++ (kind.lexeme text ++ before), c, behind, fault, ?_, hc, hfault, ?_, ?_⟩
    · rw [hrest]
      simp only [List.append_assoc]
    · rw [Place.after_append, Place.after_append]
    · have hshorter : kind.Longest text before := hlongest.of_prefix ⟨c :: behind, hrest.symm⟩
      rw [fromPlace_token p hgap hshorter.readable, hbefore, Place.after_append, Place.after_append]
      rfl

end Scan

/-- A fault is at a character that is no quote, or at the quote that opens a string. -/
theorem fault_of_piece {c : Char} {cs : List Char} {fault : LexicalFault}
    (h : piece c cs = .error fault) :
    fault = .unexpected c ∧ c ≠ '"' ∨ fault = .unterminatedString ∧ c = '"' := by
  by_cases hquote : c = '"'
  · subst hquote
    cases hcontent : Piece.stringContent? cs with
    | some content =>
      simp only [piece, hcontent] at h
      cases h
    | none =>
      simp only [piece, hcontent] at h
      cases h
      exact .inr ⟨rfl, rfl⟩
  · unfold piece at h
    repeat' split at h
    all_goals cases h
    exact .inl ⟨rfl, hquote⟩

/-- Every token of a source text, the end of the input included, has the line and the column of the
offset where it starts, and so does the fault of a text that cannot be read.  The fault starts at
the first character at which no token can be read: the text before it is read in the same way if it
stands alone.  The character is the opening quote of a string that is not closed, or one that is not
expected. -/
theorem Scan.ofString_positions (source : String) :
    (∀ t ∈ (ofString source).tokens, t.span.IsPlaced source) ∧
    ∀ d, (ofString source).fault = some d →
      d.span.IsPlaced source ∧
      ∃ before c rest, source.toList = before ++ c :: rest ∧ d.span.start = utf8Len before ∧
        ofString (String.ofList before) = ⟨(ofString source).tokens ++
          [Token.endAt ⟨d.span.start, d.span.start, d.span.line, d.span.column⟩], none⟩ ∧
        Piece.isGap c = false ∧ NoToken (c :: rest) ∧
        (d.message = (LexicalFault.unexpected c).message ∧ c ≠ '"' ∨
          d.message = LexicalFault.unterminatedString.message ∧ c = '"') := by
  have hsplit := split source.toList
  constructor
  · intro t ht
    obtain ⟨before, rest, stop, hsource, hspan⟩ := hsplit.exists_before .origin t ht
    rw [hspan]
    exact Span.isPlaced_of_start hsource stop
  · intro d hd
    -- The text before a fault is read by itself without one, and ends where the fault is.
    obtain ⟨before, c, rest, fault, hsource, hc, hfault, rfl, hbefore⟩ :=
      hsplit.exists_fault .origin hd
    refine ⟨Span.isPlaced_of_start hsource _, before, c, rest, hsource, ?_, ?_, hc,
      noToken_iff_piece.mpr ⟨fault, hfault⟩, ?_⟩
    · show (Place.origin.after before).offset = utf8Len before
      rw [Place.origin_after]
    · rw [ofString, String.toList_ofList]
      exact hbefore
    · rcases fault_of_piece hfault with ⟨rfl, hquote⟩ | ⟨rfl, hquote⟩
      · exact .inl ⟨rfl, hquote⟩
      · exact .inr ⟨rfl, hquote⟩

/-- A string with a newline behind a backslash, a comment and a sign that is no token, with
characters of several bytes before each. -/
def Scan.mixed : String := "\"é\\\nü\" // ß\n  §"

/-- The comment of `Scan.mixed` starts on the second line, and its fault lies on the third. -/
theorem Scan.mixed_positions :
    (∃ t ∈ (ofString mixed).tokens, t.kind = .comment ∧ t.span = ⟨9, 14, 2, 4⟩ ∧
      t.span.IsPlaced mixed) ∧
    ∃ d, (ofString mixed).fault = some d ∧ d.span = ⟨17, 19, 3, 3⟩ ∧ d.span.IsPlaced mixed ∧
      ∃ before c rest, mixed.toList = before ++ c :: rest ∧ NoToken (c :: rest) ∧ c ≠ '"' := by
  have hcomment : ⟨.comment, "// ß", ⟨9, 14, 2, 4⟩⟩ ∈ (ofString mixed).tokens := by decide +kernel
  have hfault : (ofString mixed).fault =
      some ((LexicalFault.unexpected '§').diagnostic ⟨17, 3, 3⟩) := by
    decide +kernel
  obtain ⟨hplaced, before, c, rest, hsource, -, -, -, hnone, hmessage⟩ :=
    (ofString_positions mixed).2 _ hfault
  refine ⟨⟨_, hcomment, rfl, rfl, (ofString_positions mixed).1 _ hcomment⟩, _, hfault, rfl, hplaced,
    before, c, rest, hsource, hnone, ?_⟩
  rcases hmessage with ⟨-, hc⟩ | ⟨hmessage, -⟩
  · exact hc
  · exact absurd hmessage (by decide +kernel)

end Scriptlet
