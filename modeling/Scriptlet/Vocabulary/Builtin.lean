/-!
# Built-in functions

The functions that every program can call without defining them.
-/

namespace Scriptlet

/-- The built-in functions. -/
inductive Builtin where
  | print
  | input
  deriving Repr, DecidableEq

namespace Builtin

/-- All built-in functions, in the order of the language's table. -/
def all : List Builtin := [print, input]

/-- The name by which a program calls the function. -/
def name : Builtin → String
  | print => "print"
  | input => "input"

/-- What the function does. -/
def description : Builtin → String
  | print => "Join the arguments with a single space and record the line as program output."
  | input => "Read one line from standard input, optionally after printing a prompt."

/-- The built-in function of a given name. -/
def ofName? (s : String) : Option Builtin := all.find? fun b => b.name == s

/-- The names of all built-in functions. -/
def names : List String := all.map name

end Builtin

end Scriptlet
