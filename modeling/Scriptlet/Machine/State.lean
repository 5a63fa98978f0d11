import Scriptlet.Machine.Value
import Scriptlet.SortedMap

/-!
# The state of the machine

The operand stack, the frames of active calls, the variables, what was printed and what is left of
the input.  Lists that grow have their newest element in front.
-/

namespace Scriptlet

/-- Variables with their values. -/
abbrev Variables := SortedMap String Value

/-- An active call: where it returns to, its variables, and the height of the stack below it. -/
structure Frame where
  returnTo : Nat
  locals : Variables
  base : Nat
  deriving DecidableEq

/-- The state of the machine. -/
structure State where
  /-- The offset of the next instruction. -/
  ip : Nat
  /-- The operands, the topmost first. -/
  stack : List Value
  /-- The active calls, the innermost first. -/
  frames : List Frame
  /-- The variables outside all calls. -/
  globals : Variables
  /-- The printed lines, the latest first. -/
  printed : List String
  /-- What was written to the screen, the latest first. -/
  screen : List String
  /-- The bytes of the input that are not read yet. -/
  input : List UInt8
  /-- The number of instructions started. -/
  steps : Nat
  deriving DecidableEq

namespace State

/-- The state in which a program starts. -/
def initial (input : List UInt8) (globals : Variables) : State where
  ip := 0
  stack := []
  frames := []
  globals := globals
  printed := []
  screen := []
  input := input
  steps := 0

/-- The value of a variable: in the innermost call, else outside all calls, else null. -/
def getVariable (s : State) (name : String) : Value :=
  let inCall := s.frames.head?.bind fun f => f.locals.find? name
  (inCall.orElse fun _ => s.globals.find? name).getD .null

/-- Write a variable of the innermost call, or one outside all calls if there is no call. -/
def setVariable (s : State) (name : String) (value : Value) : State :=
  match s.frames with
  | [] => { s with globals := s.globals.insert name value }
  | f :: rest => { s with frames := { f with locals := f.locals.insert name value } :: rest }

/-- Put a value on the stack. -/
def push (s : State) (value : Value) : State := { s with stack := value :: s.stack }

/-- Write to the screen. -/
def display (s : State) (text : String) : State := { s with screen := text :: s.screen }

/-- The bytes of the next line of the input with its end, and the bytes behind it. -/
def splitLine (input : List UInt8) : List UInt8 × List UInt8 :=
  match input.dropWhile (· != 10) with
  | [] => (input, [])
  | feed :: rest => (input.takeWhile (· != 10) ++ [feed], rest)

/-- Drop one line feed and then one carriage return from the end of a line given in reverse. -/
def dropLineEnd (line : List UInt8) : List UInt8 :=
  let line := match line with
    | 10 :: rest => rest
    | _ => line
  match line with
  | 13 :: rest => rest
  | _ => line

/-- The text of a line without its end; bytes that are no UTF-8 give the empty text. -/
def lineText (line : List UInt8) : String :=
  match String.fromUTF8? ⟨line.toArray⟩ with
  | none => ""
  | some _ => (String.fromUTF8? ⟨(dropLineEnd line.reverse).reverse.toArray⟩).getD ""

/-- Read a line of the input. -/
def readLine (s : State) : String × State :=
  let (line, rest) := splitLine s.input
  (lineText line, { s with input := rest })

end State

end Scriptlet
