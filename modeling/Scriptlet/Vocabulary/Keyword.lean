/-!
# Keywords

The reserved words of the language.  `break` and `continue` are not among them: they are names that
mean something only where a statement starts.
-/

namespace Scriptlet

/-- The reserved words. -/
inductive Keyword where
  | fnWord
  | letWord
  | ifWord
  | elseWord
  | returnWord
  | whileWord
  | forWord
  | classWord
  | importWord
  | moduleWord
  | trueWord
  | falseWord
  deriving Repr, DecidableEq

namespace Keyword

/-- What a reserved word is for. -/
inductive Category where
  | definition
  | binding
  | controlFlow
  | importing
  | literal
  deriving Repr, DecidableEq

/-- All reserved words, in the order of the language's table. -/
def all : List Keyword :=
  [fnWord, letWord, ifWord, elseWord, returnWord, whileWord, forWord, classWord, importWord,
    moduleWord, trueWord, falseWord]

/-- How a word is written. -/
def spelling : Keyword → String
  | fnWord => "fn"
  | letWord => "let"
  | ifWord => "if"
  | elseWord => "else"
  | returnWord => "return"
  | whileWord => "while"
  | forWord => "for"
  | classWord => "class"
  | importWord => "import"
  | moduleWord => "module"
  | trueWord => "true"
  | falseWord => "false"

/-- What a word is for. -/
def category : Keyword → Category
  | fnWord | classWord => .definition
  | letWord => .binding
  | ifWord | elseWord | returnWord | whileWord | forWord => .controlFlow
  | importWord | moduleWord => .importing
  | trueWord | falseWord => .literal

/-- Whether a construct of its own starts or continues with the word. -/
def hasGrammar : Keyword → Bool
  | fnWord | letWord | ifWord | elseWord | returnWord | whileWord => true
  | _ => false

/-- The reserved word written in a given way. -/
def ofSpelling? (s : String) : Option Keyword := all.find? fun k => k.spelling == s

/-- Every reserved word is found by its spelling. -/
theorem ofSpelling?_spelling (k : Keyword) : ofSpelling? k.spelling = some k := by
  cases k <;> rfl

end Keyword

/-- The name that leaves a loop where a statement starts with it. -/
def breakName : String := "break"

/-- The name that goes on with the next round of a loop where a statement starts with it. -/
def continueName : String := "continue"

end Scriptlet
