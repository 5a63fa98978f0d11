/-!
# Places and spans in a source text

Offsets count the bytes of the text in UTF-8, lines and columns start at one, and columns count
characters.
-/

namespace Scriptlet

/-- A stretch of source text: its byte offsets and the line and column where it starts. -/
structure Span where
  start : Nat
  stop : Nat
  line : Nat
  column : Nat
  deriving Repr, DecidableEq, Inhabited

namespace Span

/-- The span of things that stand in no text. -/
def zero : Span := ⟨0, 0, 0, 0⟩

/-- The number of bytes covered; a span that stops before it starts covers none. -/
def size (s : Span) : Nat := s.stop - s.start

/-- A span is empty when it covers no bytes. -/
def isEmpty (s : Span) : Bool := s.size == 0

/-- The least span that covers two spans, with the line and column of the one that starts first. -/
def merge (a b : Span) : Span :=
  let first := if a.start ≤ b.start then a else b
  ⟨min a.start b.start, max a.stop b.stop, first.line, first.column⟩

/-- The empty span at the end of a span, on the line and column where the span starts. -/
def atStop (s : Span) : Span := ⟨s.stop, s.stop, s.line, s.column⟩

/-- Line and column, as messages show them. -/
def position (s : Span) : String := toString s.line ++ ":" ++ toString s.column

end Span

/-- A point between two characters of a source text. -/
structure Place where
  offset : Nat
  line : Nat
  column : Nat
  deriving Repr, DecidableEq, Inhabited

namespace Place

/-- The beginning of a text. -/
def origin : Place := ⟨0, 1, 1⟩

/-- The place after one more character. -/
def next (p : Place) (c : Char) : Place :=
  if c = '\n' then ⟨p.offset + c.utf8Size, p.line + 1, 1⟩
  else ⟨p.offset + c.utf8Size, p.line, p.column + 1⟩

/-- The place after some more characters. -/
def after (p : Place) (cs : List Char) : Place := cs.foldl next p

/-- The stretch from one place to another. -/
def spanTo (p q : Place) : Span := ⟨p.offset, q.offset, p.line, p.column⟩

@[simp] theorem after_nil (p : Place) : p.after [] = p := rfl

@[simp] theorem after_cons (p : Place) (c : Char) (cs : List Char) :
    p.after (c :: cs) = (p.next c).after cs := rfl

/-- Reading two stretches in turn is reading them joined. -/
theorem after_append (p : Place) (cs ds : List Char) :
    p.after (cs ++ ds) = (p.after cs).after ds := by
  simp [after]

end Place

end Scriptlet
