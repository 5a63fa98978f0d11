/-!
# Operators and punctuation

The marks of the language.  Marks of two characters stand before those of one in the table, so the
first mark in table order that a text starts with is the longest one.
-/

namespace Scriptlet

/-- The marks of the language. -/
inductive Operator where
  | eqEq
  | notEq
  | ltEq
  | gtEq
  | arrow
  | plusPlus
  | minusMinus
  | plus
  | minus
  | star
  | slash
  | percent
  | eq
  | lt
  | gt
  | lParen
  | rParen
  | lBrace
  | rBrace
  | lBracket
  | rBracket
  | comma
  | colon
  | semicolon
  | dot
  | backslash
  deriving Repr, DecidableEq

namespace Operator

/-- What a mark is for. -/
inductive Category where
  | comparison
  | separator
  | arithmetic
  | assignment
  | delimiter
  deriving Repr, DecidableEq

/-- All marks, in the order of the language's table. -/
def all : List Operator :=
  [eqEq, notEq, ltEq, gtEq, arrow, plusPlus, minusMinus, plus, minus, star, slash, percent, eq, lt,
    gt, lParen, rParen, lBrace, rBrace, lBracket, rBracket, comma, colon, semicolon, dot, backslash]

/-- How a mark is written. -/
def spelling : Operator → String
  | eqEq => "=="
  | notEq => "!="
  | ltEq => "<="
  | gtEq => ">="
  | arrow => "->"
  | plusPlus => "++"
  | minusMinus => "--"
  | plus => "+"
  | minus => "-"
  | star => "*"
  | slash => "/"
  | percent => "%"
  | eq => "="
  | lt => "<"
  | gt => ">"
  | lParen => "("
  | rParen => ")"
  | lBrace => "\x7b"
  | rBrace => "\x7d"
  | lBracket => "["
  | rBracket => "]"
  | comma => ","
  | colon => ":"
  | semicolon => ";"
  | dot => "."
  | backslash => "\\"

/-- What a mark is for. -/
def category : Operator → Category
  | eqEq | notEq | ltEq | gtEq | lt | gt => .comparison
  | plusPlus | minusMinus | plus | minus | star | slash | percent => .arithmetic
  | eq => .assignment
  | lParen | rParen | lBrace | rBrace | lBracket | rBracket => .delimiter
  | arrow | comma | colon | semicolon | dot | backslash => .separator

/-- How tightly a mark binds its two operands, if it joins operands at all. -/
def precedence? : Operator → Option Nat
  | eqEq | notEq | ltEq | gtEq | lt | gt => some 5
  | plus | minus => some 10
  | star | slash => some 20
  | _ => none

/-- The mark written in a given way. -/
def ofSpelling? (s : String) : Option Operator := all.find? fun o => o.spelling == s

/-- The longest mark that a text starts with. -/
def leading? (cs : List Char) : Option Operator :=
  all.find? fun o => o.spelling.toList.isPrefixOf cs

/-- A leading mark is what the text starts with. -/
theorem spelling_isPrefixOf_of_leading? {cs : List Char} {o : Operator}
    (h : leading? cs = some o) : o.spelling.toList.isPrefixOf cs = true := by
  simpa using List.find?_some h

/-- A mark is written with at least one character. -/
theorem spelling_length_pos (o : Operator) : 0 < o.spelling.toList.length := by
  cases o <;> decide

end Operator

end Scriptlet
