import Scriptlet.Source.Span
import Scriptlet.Vocabulary.Keyword
import Scriptlet.Vocabulary.Operator

/-!
# Tokens

The words of a source text.  A token keeps its text: the characters it was read from, or, for a
string, those between the quotes.
-/

namespace Scriptlet

/-- The kinds of tokens. -/
inductive TokenKind where
  | keyword (word : Keyword)
  | identifier
  | number
  | string
  | operator (mark : Operator)
  | newline
  | comment
  | endOfInput
  deriving Repr, DecidableEq

/-- The kind as messages name it. -/
def TokenKind.label : TokenKind → String
  | .keyword _ => "keyword"
  | .identifier => "identifier"
  | .number => "number"
  | .string => "string"
  | .operator _ => "operator"
  | .newline => "newline"
  | .comment => "comment"
  | .endOfInput => "end of input"

/-- A token: its kind, its text and where it stands. -/
structure Token where
  kind : TokenKind
  text : String
  span : Span
  deriving Repr, DecidableEq

namespace Token

/-- The token as messages show it: with its text, unless the kind says it all. -/
def shown (t : Token) : String :=
  match t.kind with
  | .endOfInput => t.kind.label
  | .newline => t.kind.label
  | _ => t.kind.label ++ " \x27" ++ t.text ++ "\x27"

/-- The end of the input, at a given span. -/
def endAt (span : Span) : Token := ⟨.endOfInput, "", span⟩

/-- Whether a token is a given reserved word. -/
def isKeyword (t : Token) (word : Keyword) : Bool := t.kind == .keyword word

/-- Whether a token is a given mark. -/
def isOperator (t : Token) (mark : Operator) : Bool := t.kind == .operator mark

/-- Whether a token is a given name. -/
def isName (t : Token) (name : String) : Bool := t.kind == .identifier && t.text == name

end Token

end Scriptlet
