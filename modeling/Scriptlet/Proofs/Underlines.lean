import Scriptlet.Proofs.DiagnosticSpans

/-!
# Lines and carets

The report of a diagnostic shows a line of the source text with a row of carets under it.  The line
is the one on which the span starts (`Diagnostic.sourceLine_of_covers`), and the carets start below
the first character of the span.  They are counted in bytes, though, and the line is shown without
the carriage return at its end.  So the carets cover the characters of the span on the line, but
they can be too many, and they can stand apart from the line.  `Compile.report_underlines` says when
they do not.
-/

namespace Scriptlet

open String (utf8Len)

/-! ## Lines of a text -/

namespace Text

/-- The line of a text on which some characters of it end and the others go on.  It lies between two
line feeds or the ends of the text, and a carriage return in front of the second belongs to the end
of the line. -/
def lineAt (before behind : List Char) : List Char :=
  let line := before.rtakeWhile (· ≠ '\n') ++ behind.takeWhile (· ≠ '\n')
  if '\n' ∈ behind then (dropReturn line.reverse).reverse else line

/-- A character that is no line feed goes on with the line. -/
theorem linesFrom_cons {c : Char} (hc : c ≠ '\n') (acc rest : List Char) :
    linesFrom acc (c :: rest) = linesFrom (c :: acc) rest := by
  rw [linesFrom]
  exact hc

/-- Moving the place on by a character that is no line feed stays on the line. -/
theorem lineAt_concat {c : Char} (hc : c ≠ '\n') (before behind : List Char) :
    lineAt (before ++ [c]) behind = lineAt before (c :: behind) := by
  have hpos : decide (c ≠ '\n') = true := decide_eq_true hc
  have hmem : '\n' ∈ c :: behind ↔ '\n' ∈ behind := by
    simp [List.mem_cons, hc.symm]
  simp only [lineAt, hmem]
  rw [List.rtakeWhile_concat_pos (fun c => decide (c ≠ '\n')) before c hpos, List.takeWhile_cons,
    if_pos hpos, List.append_assoc]
  rfl

/-- Nothing before a line feed stands on the line behind it. -/
theorem rtakeWhile_newline (before cs : List Char) :
    (before ++ '\n' :: cs).rtakeWhile (· ≠ '\n') = cs.rtakeWhile (· ≠ '\n') := by
  induction cs using List.reverseRecOn with
  | nil => rw [List.rtakeWhile_concat_neg] <;> simp
  | append_singleton cs c ih =>
    rw [← List.cons_append, ← List.append_assoc]
    by_cases hc : c = '\n'
    · subst hc
      rw [List.rtakeWhile_concat_neg _ _ _ (by simp), List.rtakeWhile_concat_neg _ _ _ (by simp)]
    · have hpos : decide (c ≠ '\n') = true := decide_eq_true hc
      rw [List.rtakeWhile_concat_pos (fun c => decide (c ≠ '\n')) _ c hpos,
        List.rtakeWhile_concat_pos (fun c => decide (c ≠ '\n')) _ c hpos, ih]

/-- The line behind a line feed does not depend on what comes before it. -/
theorem lineAt_newline (before cs behind : List Char) :
    lineAt (before ++ '\n' :: cs) behind = lineAt cs behind := by
  rw [lineAt, rtakeWhile_newline]
  rfl

/-- Characters without a line feed all stand on one line. -/
theorem rtakeWhile_reverse {acc : List Char} (hacc : '\n' ∉ acc) :
    acc.reverse.rtakeWhile (· ≠ '\n') = acc.reverse := by
  apply List.rtakeWhile_eq_self_iff.mpr
  intro c hc
  refine decide_eq_true ?_
  rintro rfl
  exact hacc (List.mem_reverse.mp hc)

/-- The first of the lines that are read with a part of a line before them. -/
theorem head_linesFrom (behind : List Char) : ∀ {acc : List Char}, '\n' ∉ acc →
    (linesFrom acc behind).getD 0 "" = String.ofList (lineAt acc.reverse behind) := by
  induction behind with
  | nil =>
    intro acc hacc
    rw [lineAt, rtakeWhile_reverse hacc]
    cases acc with
    | nil => rfl
    | cons c acc => simp [linesFrom]
  | cons c rest ih =>
    intro acc hacc
    by_cases hc : c = '\n'
    · subst hc
      rw [lineAt, rtakeWhile_reverse hacc]
      simp [linesFrom]
    · rw [linesFrom_cons hc, ih (by simp [hacc, Ne.symm hc]), List.reverse_cons, lineAt_concat hc]

/-- The line that is reached behind some characters is told by the line feeds among them. -/
theorem getD_linesFrom (behind before : List Char) : ∀ {acc : List Char}, '\n' ∉ acc →
    (linesFrom acc (before ++ behind)).getD (before.count '\n') "" =
      String.ofList (lineAt (acc.reverse ++ before) behind) := by
  induction before with
  | nil =>
    intro acc hacc
    rw [List.append_nil]
    exact head_linesFrom behind hacc
  | cons c before ih =>
    intro acc hacc
    by_cases hc : c = '\n'
    · subst hc
      rw [lineAt_newline, List.count_cons_self]
      exact ih nofun
    · rw [List.cons_append, linesFrom_cons hc, List.count_cons_of_ne hc,
        ih (by simp [hacc, Ne.symm hc]), List.reverse_cons, List.append_assoc]
      rfl

/-- The line at a place of a text. -/
theorem getD_lines {source : String} {before behind : List Char}
    (h : source.toList = before ++ behind) :
    (lines source).getD (before.count '\n') "" = String.ofList (lineAt before behind) := by
  rw [lines, h]
  exact getD_linesFrom behind before nofun

/-- What is cut off from the end of a line that is shown. -/
theorem lineAt_append (before behind : List Char) :
    lineAt before behind = before.rtakeWhile (· ≠ '\n') ++ behind.takeWhile (· ≠ '\n') ∧
        ('\n' ∈ behind →
          (before.rtakeWhile (· ≠ '\n') ++ behind.takeWhile (· ≠ '\n')).getLast? ≠ some '\r') ∨
      lineAt before behind ++ ['\r'] =
          before.rtakeWhile (· ≠ '\n') ++ behind.takeWhile (· ≠ '\n') ∧ '\n' ∈ behind := by
  rw [lineAt]
  generalize before.rtakeWhile (· ≠ '\n') ++ behind.takeWhile (· ≠ '\n') = line
  by_cases hmem : '\n' ∈ behind
  · rw [if_pos hmem]
    rcases List.eq_nil_or_concat' line with rfl | ⟨front, c, rfl⟩
    · exact .inl ⟨rfl, fun _ hlast => by cases hlast⟩
    · rw [List.reverse_append, List.reverse_singleton, List.singleton_append, List.getLast?_concat]
      by_cases hc : c = '\r'
      · subst hc
        refine .inr ⟨?_, hmem⟩
        rw [dropReturn, List.reverse_reverse]
      · refine .inl ⟨?_, fun _ hlast => hc (Option.some.inj hlast)⟩
        rw [dropReturn, List.reverse_cons, List.reverse_reverse]
        exact fun _ hcons => hc (List.cons.inj hcons).1
  · rw [if_neg hmem]
    exact .inl ⟨rfl, fun hmem' => absurd hmem' hmem⟩

end Text

/-! ## Characters and bytes -/

/-- Every character takes at least one byte. -/
theorem length_le_utf8Len (cs : List Char) : cs.length ≤ utf8Len cs := by
  induction cs with
  | nil => exact Nat.le_refl _
  | cons c cs ih =>
    have hpos := c.utf8Size_pos
    rw [List.length_cons, String.utf8Len_cons]
    omega

/-- A text has as many bytes as characters if every character takes one byte. -/
theorem utf8Len_eq_length_iff {cs : List Char} :
    utf8Len cs = cs.length ↔ ∀ c ∈ cs, c.utf8Size = 1 := by
  induction cs with
  | nil => simp
  | cons c cs ih =>
    have hpos := c.utf8Size_pos
    have hle := length_le_utf8Len cs
    rw [List.forall_mem_cons, ← ih, List.length_cons, String.utf8Len_cons]
    constructor
    · intro h
      omega
    · rintro ⟨hc, hcs⟩
      omega

/-! ## Spans on lines -/

/-- How a span lies on the line that is shown, behind the part of the line before its start. -/
inductive LiesOn (head inside line : List Char) : Prop
  /-- The span ends on the line. -/
  | within (tail : List Char) (hline : line = head ++ tail) (hinside : inside <+: tail)
      (hplain : ∀ c ∈ inside, c ≠ '\n')
  /-- The span goes on behind the line. -/
  | past (tail : List Char) (hline : line = head ++ tail) (htail : tail <+: inside)
      (hlt : tail.length < inside.length) (hplain : ∀ c ∈ tail, c ≠ '\n')
      (hend : tail = [] → utf8Len inside = 1)
  /-- The span starts behind a carriage return that is not shown. -/
  | apart (hhead : head = line ++ ['\r'])

namespace LiesOn

variable {head inside line : List Char}

/-- The carets under a line, for a span that starts behind `head`. -/
def carets (head inside line : List Char) : Nat :=
  max 1 (min (utf8Len inside) (utf8Len line - head.length))

/-- How many characters of the span stand on the line. -/
def marked (head inside line : List Char) : Nat :=
  min (inside.takeWhile (· ≠ '\n')).length (line.length - head.length)

theorem takeWhile_eq_self {cs : List Char} (h : ∀ c ∈ cs, c ≠ '\n') :
    cs.takeWhile (· ≠ '\n') = cs :=
  List.takeWhile_eq_self_iff.mpr fun c hc => decide_eq_true (h c hc)

/-- A span that ends on its line has all of its characters there. -/
theorem marked_within {tail : List Char} (hline : line = head ++ tail) (hinside : inside <+: tail)
    (hplain : ∀ c ∈ inside, c ≠ '\n') : marked head inside line = inside.length := by
  have hle := hinside.length_le
  rw [marked, takeWhile_eq_self hplain, hline, List.length_append]
  omega

/-- A span that goes on behind its line has the rest of the line in it. -/
theorem marked_past {tail : List Char} (hline : line = head ++ tail) (htail : tail <+: inside)
    (hplain : ∀ c ∈ tail, c ≠ '\n') : marked head inside line = tail.length := by
  obtain ⟨rest, rfl⟩ := htail
  rw [marked, List.takeWhile_append_of_pos (fun c hc => decide_eq_true (hplain c hc)), hline,
    List.length_append, List.length_append]
  omega

/-- There are never fewer carets than characters of the span on the line. -/
theorem marked_le_carets (h : LiesOn head inside line) :
    max 1 (marked head inside line) ≤ carets head inside line := by
  have hhead := length_le_utf8Len head
  have hinside := length_le_utf8Len inside
  cases h with
  | within tail hline hprefix hplain =>
    have htail := length_le_utf8Len tail
    have hle := hprefix.length_le
    rw [marked_within hline hprefix hplain, carets, hline, String.utf8Len_append]
    omega
  | past tail hline hprefix hlt hplain =>
    have htail := length_le_utf8Len tail
    rw [marked_past hline hprefix hplain, carets, hline, String.utf8Len_append]
    omega
  | apart hline =>
    rw [marked, carets, hline, List.length_append]
    omega

/-- The carets mark the characters of the span, and stand at the line, just if the bytes that they
are counted by are characters: those of the span, or those of the whole line if the span goes on
behind it. -/
theorem carets_eq_iff (h : LiesOn head inside line) :
    (carets head inside line = max 1 (marked head inside line) ∧
        head.length + max 1 (marked head inside line) ≤ line.length + 1) ↔
      head.length ≤ line.length ∧
        (inside.length ≤ line.length - head.length → ∀ c ∈ inside, c.utf8Size = 1) ∧
        (line.length - head.length < inside.length → head.length < line.length →
          ∀ c ∈ line, c.utf8Size = 1) := by
  have hhead := length_le_utf8Len head
  have hinside := length_le_utf8Len inside
  rw [← utf8Len_eq_length_iff, ← utf8Len_eq_length_iff]
  cases h with
  | within tail hline hprefix hplain =>
    -- The bytes of the span are counted, since the line has at least as many left.
    obtain ⟨rest, rfl⟩ := hprefix
    have hrest := length_le_utf8Len rest
    have hempty : inside.length = 0 → utf8Len inside = 0 := by
      intro hnil
      rw [List.length_eq_zero_iff.mp hnil]
      rfl
    rw [marked_within hline (List.prefix_append ..) hplain, carets, hline]
    simp only [String.utf8Len_append, List.length_append]
    omega
  | past tail hline hprefix hlt hplain hend =>
    -- The bytes of the line are counted, also those that stand before the span in excess of its
    -- characters.
    have hmarked := marked_past hline hprefix hplain
    obtain ⟨rest, rfl⟩ := hprefix
    have htail := length_le_utf8Len tail
    have hrest := length_le_utf8Len rest
    have hend' : tail.length = 0 → utf8Len (tail ++ rest) = 1 :=
      fun hnil => hend (List.length_eq_zero_iff.mp hnil)
    rw [hmarked, carets, hline]
    simp only [String.utf8Len_append, List.length_append] at hlt hend' ⊢
    omega
  | apart hline =>
    rw [marked, hline, List.length_append, List.length_singleton]
    omega

end LiesOn

namespace Span.Covers

variable {source : String} {s : Span} {before inside behind : List Char}

/-- Where a line ends at the start of a span, the span starts with the line feed. -/
theorem head?_of_takeWhile_eq_nil (hne : inside ≠ [])
    (hnil : (inside ++ behind).takeWhile (· ≠ '\n') = []) : inside.head? = some '\n' := by
  obtain ⟨c, cs, rfl⟩ := List.exists_cons_of_ne_nil hne
  have hc : c = '\n' := by simpa [List.takeWhile_cons] using hnil
  rw [hc]
  rfl

/-- A part of a line from the start of a span on tells how the span lies on the line. -/
theorem liesOn_of_prefix (h : s.Covers source before inside behind) {head tail : List Char}
    (htail : tail <+: (inside ++ behind).takeWhile (· ≠ '\n'))
    (hempty : tail = [] → inside ≠ [] → inside.head? = some '\n' ∨ inside.head? = some '\r') :
    LiesOn head inside (head ++ tail) := by
  have hplain : ∀ c ∈ tail, c ≠ '\n' := fun c hc =>
    of_decide_eq_true (List.all_eq_true.mp List.all_takeWhile c (htail.subset hc))
  have hbegins : tail <+: inside ++ behind := htail.trans (List.takeWhile_prefix _)
  rcases Nat.lt_or_ge tail.length inside.length with hlt | hge
  · refine .past tail rfl ?_ hlt hplain fun hnil => ?_
    · exact List.prefix_of_prefix_length_le hbegins (List.prefix_append ..) (Nat.le_of_lt hlt)
    · have hne : inside ≠ [] := List.length_pos_iff.mp (Nat.zero_lt_of_lt hlt)
      rcases hempty hnil hne with hhead | hhead
      · rw [h.lineEnd _ (.inl rfl) hhead]
        rfl
      · rw [h.lineEnd _ (.inr rfl) hhead]
        rfl
  · have hinside := List.prefix_of_prefix_length_le (List.prefix_append inside behind) hbegins hge
    exact .within tail rfl hinside fun c hc => hplain c (hinside.subset hc)

/-- The span of a diagnostic on the line that is shown for it. -/
theorem liesOn (h : s.Covers source before inside behind) :
    LiesOn (before.rtakeWhile (· ≠ '\n')) inside (Text.lineAt before (inside ++ behind)) := by
  rcases Text.lineAt_append before (inside ++ behind) with ⟨hline, -⟩ | ⟨hline, -⟩
  · rw [hline]
    exact h.liesOn_of_prefix (List.prefix_refl _) fun hnil hne =>
      .inl (head?_of_takeWhile_eq_nil hne hnil)
  · rcases List.eq_nil_or_concat' ((inside ++ behind).takeWhile (· ≠ '\n')) with
      hnil | ⟨tail, c, hconcat⟩
    · rw [hnil, List.append_nil] at hline
      exact .apart hline.symm
    · rw [hconcat, ← List.append_assoc] at hline
      obtain ⟨hline, hc⟩ := List.append_inj' hline rfl
      rw [hline]
      apply h.liesOn_of_prefix
      · rw [hconcat]
        exact List.prefix_append ..
      · rintro rfl hne
        obtain rfl : '\r' = c := List.singleton_inj.mp hc
        obtain ⟨c, cs, rfl⟩ := List.exists_cons_of_ne_nil hne
        obtain ⟨rest, hrest⟩ := List.takeWhile_prefix (· ≠ '\n') (l := c :: cs ++ behind)
        rw [hconcat] at hrest
        rw [← (List.cons.inj hrest).1]
        exact .inr rfl

/-- The line that is shown ends before the span starts just if the span starts at a line feed behind
a carriage return. -/
theorem lineAt_lt_iff (h : s.Covers source before inside behind) :
    (Text.lineAt before (inside ++ behind)).length < (before.rtakeWhile (· ≠ '\n')).length ↔
      before.getLast? = some '\r' ∧ inside.head? = some '\n' := by
  have hbefore : before.rdropWhile (· ≠ '\n') ++ before.rtakeWhile (· ≠ '\n') = before :=
    List.rdropWhile_append_rtakeWhile
  -- The line is all that stands between two line feeds, or all but a carriage return at its end.
  rcases Text.lineAt_append before (inside ++ behind) with ⟨hline, hlast⟩ | ⟨hline, hmem⟩
  · rw [hline, List.length_append]
    constructor
    · intro hlt
      omega
    · rintro ⟨hreturn, hhead⟩
      exfalso
      obtain ⟨rest, rfl⟩ : ∃ rest, inside = '\n' :: rest := List.head?_eq_some_iff.mp hhead
      obtain ⟨front, rfl⟩ : ∃ front, before = front ++ ['\r'] :=
        List.getLast?_eq_some_iff.mp hreturn
      apply hlast (List.mem_append_left _ (List.mem_cons_self ..))
      rw [List.rtakeWhile_concat_pos _ _ _ (by decide)]
      simp
  · have hlength := congrArg List.length hline
    rw [List.length_append, List.length_append, List.length_singleton] at hlength
    constructor
    · intro hlt
      have hnil : (inside ++ behind).takeWhile (· ≠ '\n') = [] :=
        List.length_eq_zero_iff.mp (by omega)
      rw [hnil, List.append_nil] at hline
      refine ⟨?_, head?_of_takeWhile_eq_nil ?_ hnil⟩
      · rw [← hbefore, ← hline, ← List.append_assoc, List.getLast?_concat]
      · rintro rfl
        rw [h.finish rfl] at hmem
        cases hmem
    · rintro ⟨-, hhead⟩
      obtain ⟨rest, rfl⟩ : ∃ rest, inside = '\n' :: rest := List.head?_eq_some_iff.mp hhead
      have hnil : (('\n' :: rest) ++ behind).takeWhile (· ≠ '\n') = [] :=
        List.takeWhile_cons_of_neg (by decide)
      rw [hnil, List.length_nil] at hlength
      omega

end Span.Covers

/-! ## Reports -/

namespace Span

/-- The characters of a text before a span. -/
def before (source : String) (s : Span) : List Char := (slice source 0 s.start).toList

/-- The characters of a text inside of a span. -/
def inside (source : String) (s : Span) : List Char := (slice source s.start s.stop).toList

/-- The characters of a text behind a span. -/
def behind (source : String) (s : Span) : List Char :=
  (slice source s.stop source.utf8ByteSize).toList

/-- The line on which a span starts. -/
def lineOf (source : String) (s : Span) : List Char :=
  Text.lineAt (s.before source) (s.inside source ++ s.behind source)

/-- What stands on the line before the start of a span. -/
def head (source : String) (s : Span) : List Char := (s.before source).rtakeWhile (· ≠ '\n')

/-- How many characters of a span stand on the line. -/
def marked (source : String) (s : Span) : Nat :=
  LiesOn.marked (s.head source) (s.inside source) (s.lineOf source)

/-- Counting bytes is counting characters where a span is marked.  The span does not start at a line
feed behind a carriage return.  If it ends on the line, its characters take one byte each, and if it
goes on behind the line, all characters of the line do, unless none is left to mark. -/
structure Countable (source : String) (s : Span) : Prop where
  shown : ¬((s.before source).getLast? = some '\r' ∧ (s.inside source).head? = some '\n')
  within : (s.inside source).length ≤ (s.lineOf source).length - (s.head source).length →
    ∀ c ∈ s.inside source, c.utf8Size = 1
  past : (s.lineOf source).length - (s.head source).length < (s.inside source).length →
    (s.head source).length < (s.lineOf source).length → ∀ c ∈ s.lineOf source, c.utf8Size = 1

namespace Covers

variable {source : String} {s : Span} {before inside behind : List Char}

/-- The start of a span counts the bytes before it. -/
theorem start_eq (h : s.Covers source before inside behind) : s.start = utf8Len before := by
  rw [h.span_eq, Place.spanTo, Place.offset_after]
  exact Nat.zero_add _

/-- The end of a span counts the bytes before it and inside of it. -/
theorem stop_eq (h : s.Covers source before inside behind) :
    s.stop = utf8Len before + utf8Len inside := by
  have hstop : s.stop = (Place.origin.after (before ++ inside)).offset := by
    rw [h.span_eq]
    rfl
  rw [hstop, Place.offset_after, String.utf8Len_append]
  exact Nat.zero_add _

/-- What is cut out before a span is what stands before it. -/
theorem before_eq (h : s.Covers source before inside behind) : s.before source = before := by
  have htext : source.toList = [] ++ (before ++ (inside ++ behind)) := h.text_eq
  have hslice := slice_eq htext
  rw [String.utf8Len_nil, Nat.zero_add] at hslice
  rw [Span.before, h.start_eq, hslice, String.toList_ofList]

/-- What is cut out between the ends of a span is what it covers. -/
theorem inside_eq (h : s.Covers source before inside behind) : s.inside source = inside := by
  rw [Span.inside, h.start_eq, h.stop_eq, slice_eq h.text_eq, String.toList_ofList]

/-- What is cut out behind a span is what stands behind it. -/
theorem behind_eq (h : s.Covers source before inside behind) : s.behind source = behind := by
  have htext : source.toList = (before ++ inside) ++ (behind ++ []) := by
    rw [h.text_eq, List.append_nil, List.append_assoc]
  have hsize : source.utf8ByteSize = utf8Len (before ++ inside) + utf8Len behind := by
    rw [← String.utf8Len_toList, htext, String.utf8Len_append, List.append_nil]
  have hslice := slice_eq htext
  rw [Span.behind, h.stop_eq, hsize, ← String.utf8Len_append, hslice, String.toList_ofList]

end Covers

end Span

namespace Diagnostic

/-- The first lines of a report. -/
def heading (file : String) (d : Diagnostic) : String :=
  d.stage.label ++ ": " ++ d.message ++ "\n"
    ++ "  --> " ++ file ++ ":" ++ d.span.position ++ "\n"
    ++ "  " ++ Text.spaces (toString d.span.line).length ++ " |" ++ "\n"

/-- What stands in front of the line that is shown. -/
def numbered (d : Diagnostic) : String := "  " ++ toString d.span.line ++ " | "

/-- What stands in front of the row of carets. -/
def margin (d : Diagnostic) : String :=
  "  " ++ Text.spaces (toString d.span.line).length ++ " |" ++ " "

/-- A row of carets behind an indentation. -/
def carets (indent count : Nat) : String :=
  Text.spaces indent ++ String.ofList (List.replicate count '^')

/-- The last lines of a report. -/
def remarks (d : Diagnostic) : String :=
  String.join (d.notes.map ("  = note: " ++ · ++ "\n"))
    ++ String.join (d.hints.map ("  = hint: " ++ · ++ "\n"))

/-- A report that shows a line with a row of carets under it. -/
def rendered (file line : String) (indent count : Nat) (d : Diagnostic) : String :=
  d.heading file ++ (d.numbered ++ line ++ "\n") ++ (d.margin ++ carets indent count ++ "\n")
    ++ d.remarks

/-- The line and the carets start in the same column. -/
theorem length_margin (d : Diagnostic) : d.margin.length = d.numbered.length := by
  simp only [margin, numbered, Text.spaces, String.length_append, String.length_ofList,
    List.length_replicate, Nat.add_assoc]
  rfl

/-- A report shows the line that its diagnostic starts on, with a row of carets that is indented by
columns and counted in bytes. -/
theorem report_eq_rendered (file source : String) (d : Diagnostic) :
    d.report file source = d.rendered file (d.sourceLine source) (d.span.column - 1)
      (caretCount (d.sourceLine source) d) := by
  unfold report rendered heading numbered margin carets remarks
  simp only [String.append_assoc]

/-- A report tells how many carets it has. -/
theorem rendered_inj {file line : String} {indent m n : Nat} {d : Diagnostic}
    (h : d.rendered file line indent m = d.rendered file line indent n) : m = n := by
  have hlength := congrArg String.length h
  simp only [rendered, carets, String.length_append, String.length_ofList,
    List.length_replicate] at hlength
  omega

/-- A report underlines the characters of a diagnostic's span: it shows the line on which the span
starts, the carets start below the first character of the span, there are as many as the span has
characters on the line, but at least one, and they go no more than one position past the line. -/
structure Underlined (file source : String) (d : Diagnostic) : Prop where
  report_eq : d.report file source = d.rendered file (String.ofList (d.span.lineOf source))
    (d.span.head source).length (max 1 (d.span.marked source))
  start : d.span.head source <+: d.span.lineOf source
  stop : (d.span.head source).length + max 1 (d.span.marked source) ≤
    (d.span.lineOf source).length + 1

instance (file source : String) (d : Diagnostic) : Decidable (d.Underlined file source) :=
  decidable_of_iff
    (d.report file source = d.rendered file (String.ofList (d.span.lineOf source))
        (d.span.head source).length (max 1 (d.span.marked source)) ∧
      d.span.head source <+: d.span.lineOf source ∧
      (d.span.head source).length + max 1 (d.span.marked source) ≤
        (d.span.lineOf source).length + 1)
    ⟨fun h => ⟨h.1, h.2.1, h.2.2⟩, fun h => ⟨h.report_eq, h.start, h.stop⟩⟩

section Covered

variable {source : String} {d : Diagnostic} {before inside behind : List Char}

/-- The line that is shown is the one on which the span starts. -/
theorem sourceLine_of_covers (h : d.span.Covers source before inside behind) :
    d.sourceLine source = String.ofList (Text.lineAt before (inside ++ behind)) := by
  have hline : d.span.line = 1 + before.count '\n' := by
    rw [h.span_eq, Place.spanTo, Place.origin_after before]
  rw [sourceLine, hline, Nat.add_sub_cancel_left, Text.getD_lines h.text_eq]

/-- The column counts the characters of the line before the span. -/
theorem column_of_covers (h : d.span.Covers source before inside behind) :
    d.span.column - 1 = (before.rtakeWhile (· ≠ '\n')).length := by
  have hcolumn : d.span.column = 1 + lastLineLength before := by
    rw [h.span_eq, Place.spanTo, Place.origin_after before]
  rw [hcolumn, Nat.add_sub_cancel_left, lastLineLength]

/-- How many carets there are is decided by the line and by how the span lies on it. -/
theorem caretCount_of_covers (h : d.span.Covers source before inside behind) :
    caretCount (d.sourceLine source) d =
      LiesOn.carets (before.rtakeWhile (· ≠ '\n')) inside
        (Text.lineAt before (inside ++ behind)) := by
  have hsize : d.span.size = utf8Len inside := by
    rw [Span.size, h.start_eq, h.stop_eq, Nat.add_sub_cancel_left]
  rw [caretCount, hsize, column_of_covers h, sourceLine_of_covers h, LiesOn.carets,
    ← String.utf8Len_toList, String.toList_ofList]
  omega

/-- What a report shows, for a diagnostic whose span covers a stretch of the text. -/
theorem report_of_covers (h : d.span.Covers source before inside behind) (file : String) :
    d.report file source = d.rendered file (String.ofList (d.span.lineOf source))
      (d.span.head source).length
      (LiesOn.carets (d.span.head source) (d.span.inside source) (d.span.lineOf source)) := by
  rw [report_eq_rendered, caretCount_of_covers h, column_of_covers h, sourceLine_of_covers h,
    Span.head, Span.lineOf, h.before_eq, h.inside_eq, h.behind_eq]

/-- A span ends on the line that it starts on, or it goes on behind that line. -/
theorem liesOn_of_covers (h : d.span.Covers source before inside behind) :
    LiesOn (d.span.head source) (d.span.inside source) (d.span.lineOf source) := by
  rw [Span.head, Span.lineOf, h.before_eq, h.inside_eq, h.behind_eq]
  exact h.liesOn

/-- The report underlines the span just if counting bytes is counting characters there. -/
theorem underlined_iff_of_covers (h : d.span.Covers source before inside behind) (file : String) :
    d.Underlined file source ↔ d.span.Countable source := by
  have hlies := liesOn_of_covers h
  have hshown : (d.span.head source).length ≤ (d.span.lineOf source).length ↔
      ¬((d.span.before source).getLast? = some '\r' ∧
        (d.span.inside source).head? = some '\n') := by
    rw [← Nat.not_lt, Span.head, Span.lineOf, h.before_eq, h.inside_eq, h.behind_eq,
      h.lineAt_lt_iff]
  have hexact := hlies.carets_eq_iff
  rw [hshown] at hexact
  constructor
  · intro hunder
    -- Two reports with the same lines have the same number of carets.
    have hcount := rendered_inj ((report_of_covers h file).symm.trans hunder.report_eq)
    obtain ⟨hvisible, hwithin, hpast⟩ := hexact.mp ⟨hcount, hunder.stop⟩
    exact ⟨hvisible, hwithin, hpast⟩
  · intro hcountable
    obtain ⟨hcount, hstop⟩ := hexact.mpr ⟨hcountable.shown, hcountable.within, hcountable.past⟩
    refine ⟨?_, ?_, hstop⟩
    · rw [report_of_covers h file, hcount]
      rfl
    · -- The span does not lie apart from its line, so the line starts with what comes before the
      -- span.
      cases hlies with
      | within tail hline | past tail hline =>
        rw [hline]
        exact List.prefix_append ..
      | apart hhead =>
        have hle := hshown.mpr hcountable.shown
        rw [hhead, List.length_append, List.length_singleton] at hle
        omega

end Covered

end Diagnostic

/-- What the reports on a refused source text show.  The span of a diagnostic covers a stretch of
the text.  The report has the line on which this stretch starts and, behind as many blanks as the
line has characters before the stretch, as many carets as the stretch has bytes, but not more than
the line has bytes less those characters, and at least one.  The carets are at least as many as the
characters of the stretch on the line, and the report underlines just these if and only if counting
bytes is counting characters there. -/
theorem Compile.report_underlines {resolve : Bool} {source : String} {fault : CompileFault}
    (h : ofSource resolve source = .error fault) {d : Diagnostic} (hd : d ∈ fault.diagnostics)
    (file : String) :
    source.toList = d.span.before source ++ (d.span.inside source ++ d.span.behind source) ∧
    d.margin.length = d.numbered.length ∧
    (∃ count, d.report file source = d.rendered file (String.ofList (d.span.lineOf source))
        (d.span.head source).length count ∧
      count = max 1 (min (utf8Len (d.span.inside source))
        (utf8Len (d.span.lineOf source) - (d.span.head source).length)) ∧
      max 1 (d.span.marked source) ≤ count) ∧
    (d.Underlined file source ↔ d.span.Countable source) := by
  obtain ⟨before, inside, behind, hcovers⟩ := covers_of_ofSource h hd
  refine ⟨?_, d.length_margin, ⟨_, Diagnostic.report_of_covers hcovers file, rfl, ?_⟩, ?_⟩
  · rw [hcovers.before_eq, hcovers.inside_eq, hcovers.behind_eq, ← hcovers.text_eq]
  · exact (Diagnostic.liesOn_of_covers hcovers).marked_le_carets
  · exact Diagnostic.underlined_iff_of_covers hcovers file

/-- A character of three bytes that starts no token. -/
def Compile.ideograph : String := "日"

/-- The one character of `Compile.ideograph` gets three carets. -/
theorem Compile.ideograph_not_underlined :
    ∃ d, ofSource true ideograph = .error (.lexical d) ∧
      d.report "m.d8" ideograph = d.rendered "m.d8" "日" 0 3 ∧ d.span.marked ideograph = 1 ∧
      ¬d.Underlined "m.d8" ideograph := by
  refine ⟨(LexicalFault.unexpected '日').diagnostic .origin, ?_, ?_, ?_, ?_⟩
  · with_unfolding_all rfl
  · decide +kernel
  · decide +kernel
  · decide +kernel

/-- A name that is not declared, on a line with a character of two bytes. -/
def Compile.accented : String := "let s = \"é\" let t = y"

/-- The fault of `Compile.accented`. -/
def Compile.accentedFault : LocatedScopeFault := ⟨.undeclaredVariable "y", ⟨21, 22, 1, 21⟩⟩

/-- The name of `Compile.accented` gets one caret. -/
theorem Compile.accented_underlined :
    ofSource true accented = .error (.semantic [accentedFault]) ∧
      accentedFault.diagnostic.span.Countable accented ∧
      accentedFault.diagnostic.Underlined "m.d8" accented := by
  have hsource : ofSource true accented = .error (.semantic [accentedFault]) := by
    with_unfolding_all rfl
  have hinside : accentedFault.diagnostic.span.inside accented = ['y'] := by decide +kernel
  have hline : (accentedFault.diagnostic.span.lineOf accented).length = 21 := by decide +kernel
  have hhead : (accentedFault.diagnostic.span.head accented).length = 20 := by decide +kernel
  have hcountable : accentedFault.diagnostic.span.Countable accented := by
    constructor
    · rw [hinside]
      exact fun h => absurd h.2 (by decide)
    · intro _ c hc
      rw [hinside] at hc
      rw [List.mem_singleton.mp hc]
      rfl
    · rw [hinside, hline, hhead]
      exact fun hlt => absurd hlt (by decide)
  have hreport := report_underlines hsource (List.mem_singleton.mpr rfl) "m.d8"
  exact ⟨hsource, hcountable, hreport.2.2.2.mpr hcountable⟩

end Scriptlet
