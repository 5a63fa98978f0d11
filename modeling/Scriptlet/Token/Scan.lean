import Scriptlet.Source.Diagnostic
import Scriptlet.Text.Quoted
import Scriptlet.Token.Basic

/-!
# From text to tokens

`piece` reads the token that a text starts with, and `Scan.from` reads a whole text: spaces and tabs
are skipped between tokens, every token is as long as it can be, and reading stops at the first
character that starts none.
-/

namespace Scriptlet

/-- Why a text cannot be read as tokens. -/
inductive LexicalFault where
  /-- The character starts no token. -/
  | unexpected (c : Char)
  /-- A string has no closing quote. -/
  | unterminatedString
  deriving Repr, DecidableEq

/-- The wording of a fault. -/
def LexicalFault.message : LexicalFault → String
  | .unexpected c => "Unexpected character \x27" ++ Text.shownChar c ++ "\x27"
  | .unterminatedString => "Unterminated string literal"

/-- The characters that a fault marks, which start where the faulty token starts. -/
def LexicalFault.marked : LexicalFault → Char
  | .unexpected c => c
  | .unterminatedString => '"'

/-- The diagnostic of a fault at a place. -/
def LexicalFault.diagnostic (fault : LexicalFault) (p : Place) : Diagnostic where
  stage := .lexical
  message := fault.message
  span := ⟨p.offset, p.offset + fault.marked.utf8Size, p.line, p.column⟩

/-- The token that a text starts with: its kind, its text, and how many characters beyond the first
it takes. -/
structure Piece where
  kind : TokenKind
  text : List Char
  extra : Nat
  deriving Repr, DecidableEq

namespace Piece

/-- The blanks between tokens. -/
def isGap (c : Char) : Bool := c == ' ' || c == '\t'

/-- The characters that start a name. -/
def startsName (c : Char) : Bool := c.isAlpha || c == '_'

/-- The characters that continue a name. -/
def continuesName (c : Char) : Bool := c.isAlphanum || c == '_'

/-- A name or a reserved word. -/
def word (c : Char) (cs : List Char) : Piece :=
  let text := c :: cs.takeWhile continuesName
  let kind := match Keyword.ofSpelling? (String.ofList text) with
    | some k => .keyword k
    | none => .identifier
  ⟨kind, text, text.length - 1⟩

/-- A number: digits, and a point only where a digit follows it. -/
def number (c : Char) (cs : List Char) : Piece :=
  let whole := c :: cs.takeWhile Char.isDigit
  let text := match cs.dropWhile Char.isDigit with
    | '.' :: d :: rest =>
      if d.isDigit then whole ++ '.' :: d :: rest.takeWhile Char.isDigit else whole
    | _ => whole
  ⟨.number, text, text.length - 1⟩

/-- The content of a string up to its closing quote, if there is one.  A backslash keeps the next
character from being read as a quote. -/
def stringContent? : List Char → Option (List Char)
  | [] => none
  | '"' :: _ => some []
  | ['\\'] => none
  | '\\' :: c :: rest => (stringContent? rest).map ('\\' :: c :: ·)
  | c :: rest => (stringContent? rest).map (c :: ·)

end Piece

open Piece in
/-- The token that a text starts with, given its first character and the others. -/
def piece (c : Char) (cs : List Char) : Except LexicalFault Piece :=
  if c.isDigit then .ok (number c cs)
  else if startsName c then .ok (word c cs)
  else if c = '"' then
    match stringContent? cs with
    | some content => .ok ⟨.string, content, content.length + 1⟩
    | none => .error .unterminatedString
  else if c = '/' ∧ cs.head? = some '/' then
    let text := c :: cs.takeWhile (· ≠ '\n')
    .ok ⟨.comment, text, text.length - 1⟩
  else
    match Operator.leading? (c :: cs) with
    | some mark =>
      let text := mark.spelling.toList
      .ok ⟨.operator mark, text, text.length - 1⟩
    | none => if c = '\n' then .ok ⟨.newline, [c], 0⟩ else .error (.unexpected c)

/-- The tokens of a text in order, up to the fault that ended the reading, if any. -/
structure Scan where
  tokens : List Token
  fault : Option Diagnostic
  deriving Repr, DecidableEq

namespace Scan

/-- A scan with one more token in front. -/
def cons (t : Token) (s : Scan) : Scan := ⟨t :: s.tokens, s.fault⟩

/-- The tokens of the text that starts at a given place. -/
def fromPlace (p : Place) (cs : List Char) : Scan :=
  let start := p.after (cs.takeWhile Piece.isGap)
  match _h : cs.dropWhile Piece.isGap with
  | [] => ⟨[Token.endAt (start.spanTo start)], none⟩
  | c :: rest =>
    match piece c rest with
    | .error fault => ⟨[], some (fault.diagnostic start)⟩
    | .ok found =>
      let stop := start.after ((c :: rest).take (found.extra + 1))
      cons ⟨found.kind, String.ofList found.text, start.spanTo stop⟩
        (fromPlace stop (rest.drop found.extra))
termination_by cs.length
decreasing_by
  have hsub : (cs.dropWhile Piece.isGap).length ≤ cs.length :=
    (List.dropWhile_sublist _).length_le
  simp_all
  omega

/-- The tokens of a whole text. -/
def ofString (source : String) : Scan := fromPlace .origin source.toList

/-- The tokens of a scan that read the whole text, or the fault that ended it. -/
def toExcept (s : Scan) : Except Diagnostic (List Token) :=
  match s.fault with
  | some fault => .error fault
  | none => .ok s.tokens

end Scan

end Scriptlet
