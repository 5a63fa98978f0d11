import Scriptlet.Source.Span
import Scriptlet.Text.Layout

/-!
# Diagnostics

A diagnostic says at which stage a source text was refused, why and where.  It can be shown on one
line, or as a report with the source line and a row of carets under it.
-/

namespace Scriptlet

/-- The stage that refuses a text. -/
inductive Stage where
  | lexical
  | syntactic
  | semantic
  deriving Repr, DecidableEq

/-- The stage as messages name it. -/
def Stage.label : Stage → String
  | .lexical => "lex error"
  | .syntactic => "syntax error"
  | .semantic => "semantic error"

/-- The stage as a code that tools can search for. -/
def Stage.code : Stage → String
  | .lexical => "dark8::lex"
  | .syntactic => "dark8::syntax"
  | .semantic => "dark8::semantic"

/-- Why and where a source text was refused. -/
structure Diagnostic where
  stage : Stage
  message : String
  span : Span
  notes : List String := []
  hints : List String := []
  deriving Repr, DecidableEq

namespace Diagnostic

/-- The diagnostic on one line. -/
def summary (d : Diagnostic) : String :=
  d.stage.label ++ ": " ++ d.message ++ " at " ++ d.span.position

/-- Notes and hints, one on each line, if there are any. -/
def help? (d : Diagnostic) : Option String :=
  let remarks := d.notes.map ("note: " ++ ·) ++ d.hints.map ("hint: " ++ ·)
  if remarks.isEmpty then none else some ("\n".intercalate remarks)

/-- The number of bytes that a label marks, which is never none. -/
def markedSize (d : Diagnostic) : Nat := max d.span.size 1

/-- The source line a diagnostic points at; past the last line it is empty. -/
def sourceLine (source : String) (d : Diagnostic) : String :=
  (Text.lines source).getD (d.span.line - 1) ""

/-- The number of carets under the source line: the bytes of the span that fit on the line, and at
least one. -/
def caretCount (line : String) (d : Diagnostic) : Nat :=
  max 1 (min d.span.size (max (line.utf8ByteSize - (d.span.column - 1)) 1))

/-- The report of a diagnostic: the message, the place, the source line with carets under it, and
the remarks. -/
def report (file source : String) (d : Diagnostic) : String :=
  let line := sourceLine source d
  let number := toString d.span.line
  let margin := "  " ++ Text.spaces number.length ++ " |"
  let carets := String.ofList (List.replicate (caretCount line d) '^')
  d.stage.label ++ ": " ++ d.message ++ "\n"
    ++ "  --> " ++ file ++ ":" ++ d.span.position ++ "\n"
    ++ margin ++ "\n"
    ++ "  " ++ number ++ " | " ++ line ++ "\n"
    ++ margin ++ " " ++ Text.spaces (d.span.column - 1) ++ carets ++ "\n"
    ++ String.join (d.notes.map ("  = note: " ++ · ++ "\n"))
    ++ String.join (d.hints.map ("  = hint: " ++ · ++ "\n"))

end Diagnostic

end Scriptlet
