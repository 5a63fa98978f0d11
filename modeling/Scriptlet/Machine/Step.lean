import Scriptlet.Machine.State
import Scriptlet.Program.Basic

/-!
# Running a program

`execute` carries out one instruction, `turn` fetches the next one and keeps count, and `runFor`
takes a bounded number of turns.  A failing instruction leaves the state in which it failed, so a
run can be taken up again behind it.
-/

namespace Scriptlet

/-- How a program is run. -/
structure Settings where
  /-- Whether printed lines are also written to the screen. -/
  echo : Bool := false
  /-- After how many instructions the run is stopped, if ever. -/
  maxSteps : Option Nat := none
  deriving Repr, DecidableEq

/-- What comes of one instruction. -/
inductive Outcome where
  | next (s : State)
  | halt (s : State)
  | fail (fault : Fault) (s : State)

namespace State

/-- An operation on the two topmost values, which are taken off the stack even if it fails. -/
def binary (s : State) (f : Value → Value → Except Fault Value) : Outcome :=
  match s.stack with
  | b :: a :: rest =>
    match f a b with
    | .ok value => .next { s with stack := value :: rest }
    | .error fault => .fail fault { s with stack := rest }
  | _ => .fail .stackUnderflow { s with stack := [] }

/-- A comparison of the two topmost values. -/
def comparison (s : State) (op : String) (test : Ordering → Bool) : Outcome :=
  s.binary fun a b => (Value.compare op a b).map fun order => .bool (test order)

/-- Go on with the topmost value taken off the stack. -/
def withTop (s : State) (f : Value → State → Outcome) : Outcome :=
  match s.stack with
  | [] => .fail .stackUnderflow s
  | value :: rest => f value { s with stack := rest }

/-- The arguments of a call in the order they were put on the stack, and the state without them. -/
def takeArguments? (s : State) (count : Nat) : Option (List Value × State) :=
  if s.stack.length < count then none
  else some ((s.stack.take count).reverse, { s with stack := s.stack.drop count })

/-- Carry out a built-in function. -/
def callBuiltin (s : State) (echo : Bool) (args : List Value) : Builtin → State
  | .print =>
    let line := " ".intercalate (args.map Value.shown)
    let s := if echo then s.display (line ++ "\n") else s
    { s with printed := line :: s.printed }.push .null
  | .input =>
    let s := match args with
      | [] => s
      | prompt :: _ => s.display prompt.shown
    let (line, s) := s.readLine
    s.push (.str line)

/-- The variables with which a call starts: every parameter has its argument, or null if there are
too few, and further arguments are dropped. -/
def bindParameters (params : List String) (args : List Value) : Variables :=
  .ofList (params.zipIdx.map fun (param, i) => (param, args.getD i .null))

/-- Return from the innermost call with the topmost value above its base, or null if there is none.
Outside all calls the program ends. -/
def returnFromCall (s : State) : Outcome :=
  match s.frames with
  | [] => .halt s
  | frame :: frames =>
    let result := if frame.base < s.stack.length then s.stack.headD .null else .null
    .next { s with
      ip := frame.returnTo
      frames := frames
      stack := result :: s.stack.drop (s.stack.length - frame.base) }

end State

namespace Program

/-- Go on with the name of the variable at an index. -/
def withVariable (p : Program) (index : Nat) (s : State) (f : String → Outcome) : Outcome :=
  match p.variableNames[index]? with
  | some name => f name
  | none => .fail (.badVariable index p.variableNames.size) s

/-- Go on with the constant at an index. -/
def withConstant (p : Program) (index : Nat) (s : State) (f : Literal → Outcome) : Outcome :=
  match p.constants[index]? with
  | some value => f value
  | none => .fail (.badConstant index p.constants.size) s

/-- Go on if a target lies in the code or at its end. -/
def withTarget (p : Program) (target : Nat) (s : State) (k : Outcome) : Outcome :=
  if p.code.size < target then .fail (.invalidJumpTarget target p.code.size) s else k

/-- Call the function of a given name. -/
def callNamed (p : Program) (echo : Bool) (name : String) (count : Nat) (s : State) : Outcome :=
  match Builtin.ofName? name with
  | some builtin =>
    match s.takeArguments? count with
    | some (args, s) => .next (s.callBuiltin echo args builtin)
    | none => .fail .stackUnderflow s
  | none =>
    match p.function? name with
    | none => .fail (.unknownFunction name) s
    | some entry =>
      p.withTarget entry.offset s <|
        match s.takeArguments? count with
        | none => .fail .stackUnderflow s
        | some (args, s) =>
          .next { s with
            ip := entry.offset
            frames := ⟨s.ip, State.bindParameters entry.params args, s.stack.length⟩ :: s.frames }

/-- Call the function whose name is the constant at an index. -/
def callAt (p : Program) (echo : Bool) (index count : Nat) (s : State) : Outcome :=
  p.withConstant index s fun value =>
    match value with
    | .str name => p.callNamed echo name count s
    | other => .fail (.notCallable other.shown) s

/-- Carry out one instruction in a state that already points behind it. -/
def execute (p : Program) (echo : Bool) (i : Instruction) (s : State) : Outcome :=
  match i.op with
  | .nop => .next s
  | .loadConst => p.withConstant i.arg1 s fun value => .next (s.push (.ofLiteral value))
  | .loadVar => p.withVariable i.arg1 s fun name => .next (s.push (s.getVariable name))
  | .storeVar =>
    p.withVariable i.arg1 s fun name => s.withTop fun value s => .next (s.setVariable name value)
  | .add => s.binary Value.add
  | .sub => s.binary Value.sub
  | .mul => s.binary Value.mul
  | .div => s.binary Value.div
  | .eq => s.binary fun a b => .ok (.bool (a.equals b))
  | .neq => s.binary fun a b => .ok (.bool (!a.equals b))
  | .lt => s.comparison "<" Ordering.isLT
  | .lte => s.comparison "<=" Ordering.isLE
  | .gt => s.comparison ">" Ordering.isGT
  | .gte => s.comparison ">=" Ordering.isGE
  | .and => s.binary fun a b => .ok (.bool (a.isTruthy && b.isTruthy))
  | .or => s.binary fun a b => .ok (.bool (a.isTruthy || b.isTruthy))
  | .not => s.withTop fun value s => .next (s.push (.bool (!value.isTruthy)))
  | .jump => p.withTarget i.arg1 s (.next { s with ip := i.arg1 })
  | .jumpIfFalse =>
    p.withTarget i.arg1 s <| s.withTop fun value s =>
      .next (if value.isTruthy then s else { s with ip := i.arg1 })
  | .call => p.callAt echo i.arg1 i.arg2 s
  | .ret => s.returnFromCall
  | .pop => s.withTop fun _ s => .next s

end Program

/-- How far a run has come: it goes on, it has ended, or it has failed. -/
inductive Turn where
  | next (s : State)
  | done (s : State)
  | failed (fault : RuntimeFault) (s : State)

/-- The state that a run has come to. -/
def Turn.state : Turn → State
  | next s => s
  | done s => s
  | failed _ s => s

namespace Program

/-- Whether the step limit is used up. -/
def limitReached? (settings : Settings) (s : State) : Option Nat :=
  settings.maxSteps.filter (· ≤ s.steps)

/-- Carry out the next instruction, unless the code is at its end or the step limit is used up. -/
def turn (p : Program) (settings : Settings) (s : State) : Turn :=
  match p.code[s.ip]? with
  | none => .done s
  | some i =>
    let located (fault : Fault) : RuntimeFault := .locate ⟨fault, none⟩ s.ip i.op.name
    match limitReached? settings s with
    | some limit => .failed (located (.stepLimitExceeded limit)) s
    | none =>
      match p.execute settings.echo i { s with ip := s.ip + 1, steps := s.steps + 1 } with
      | .next s => .next s
      | .halt s => .done s
      | .fail fault s => .failed (located fault) s

/-- Take at most a given number of turns. -/
def runFor (p : Program) (settings : Settings) : Nat → State → Turn
  | 0, s => .next s
  | n + 1, s =>
    match p.turn settings s with
    | .next s => p.runFor settings n s
    | ended => ended

/-- Whether the next instruction reads a line of the input. -/
def readsNext (p : Program) (s : State) : Bool :=
  match p.code[s.ip]? with
  | some ⟨.call, index, _⟩ =>
    match p.constants[index]? with
    | some (.str name) => Builtin.ofName? name == some .input
    | _ => false
  | _ => false

/-- Run to the end or to a step limit. -/
def runLimited (p : Program) (echo : Bool) (limit : Nat) (s : State) : Turn :=
  p.runFor ⟨echo, some limit⟩ (limit - s.steps + 1) s

end Program

end Scriptlet
