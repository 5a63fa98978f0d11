/-!
# Command line arguments

The tool has options that take a value, flags, one file and two subcommands with a file each.
Arguments are taken in order.  A value is held back until the next argument shows that it is
complete, so a request for help in a subcommand is answered before a bad value in front of it is
noticed.
-/

namespace Scriptlet

/-- A subcommand with its file. -/
inductive Subcommand where
  | build (file : String) (output : Option String)
  | run (file : String)
  deriving Repr, DecidableEq

/-- What the arguments ask for. -/
structure Invocation where
  command : Option Subcommand := none
  file : Option String := none
  lexFile : Option String := none
  parseFile : Option String := none
  checkFile : Option String := none
  emitFile : Option String := none
  noResolve : Bool := false
  maxSteps : Option Nat := none
  deriving Repr, DecidableEq

/-- Why arguments are not carried out. -/
inductive Refusal where
  /-- The arguments do not fit together. -/
  | usage
  /-- Help was asked for. -/
  | help
  /-- The version was asked for. -/
  | version
  deriving Repr, DecidableEq

namespace Arguments

/-- Where arguments stand: before any subcommand, or behind one. -/
inductive Level where
  | top
  | build
  | run
  deriving Repr, DecidableEq

/-- What a value can be for. -/
inductive Slot where
  | file
  | lexFile
  | parseFile
  | checkFile
  | emitFile
  | output
  | maxSteps
  deriving Repr, DecidableEq

/-- The flags. -/
inductive Flag where
  | noResolve
  | help
  | version
  deriving Repr, DecidableEq

/-- What an option stands for. -/
inductive Switch where
  | takes (slot : Slot)
  | flag (f : Flag)
  deriving Repr, DecidableEq

/-- The options with long names at a level. -/
def longSwitch? : Level → String → Option Switch
  | _, "no-resolve" => some (.flag .noResolve)
  | _, "max-steps" => some (.takes .maxSteps)
  | _, "help" => some (.flag .help)
  | .top, "version" => some (.flag .version)
  | .top, "lex" => some (.takes .lexFile)
  | .top, "parse" => some (.takes .parseFile)
  | .top, "check" => some (.takes .checkFile)
  | .top, "emit-ir" => some (.takes .emitFile)
  | .build, "output" => some (.takes .output)
  | _, _ => none

/-- The options of one letter at a level. -/
def shortSwitch? : Level → Char → Option Switch
  | _, 'h' => some (.flag .help)
  | .top, 'V' => some (.flag .version)
  | .build, 'o' => some (.takes .output)
  | _, _ => none

/-- What was given at a level, and the value that is held back. -/
structure Given where
  values : List (Slot × String) := []
  noResolve : Bool := false
  held : Option (Slot × Option String) := none
  fileSeen : Bool := false
  deriving Repr, DecidableEq

namespace Given

/-- The value given for a slot. -/
def value? (g : Given) (slot : Slot) : Option String := g.values.lookup slot

end Given

/-- A step count: an optional plus sign and digits, below two to the power 64. -/
def stepCount? (text : String) : Option Nat :=
  let digits := match text.toList with
    | '+' :: rest => rest
    | cs => cs
  if digits.isEmpty || !digits.all Char.isDigit then none
  else
    let n := digits.foldl (fun n c => 10 * n + (c.toNat - '0'.toNat)) 0
    if n < UInt64.size then some n else none

/-- Whether a text can be the value of a slot: files have names, and step counts are numbers. -/
def accepts (slot : Slot) (text : String) : Bool :=
  match slot with
  | .maxSteps => (stepCount? text).isSome
  | _ => text != ""

namespace Given

/-- Take a value for a slot; a slot is filled at most once. -/
def fill (g : Given) (slot : Slot) (text : String) : Except Refusal Given :=
  if accepts slot text && (g.value? slot).isNone then
    .ok { g with values := (slot, text) :: g.values }
  else .error .usage

/-- Take the value that is held back; an option whose value is missing is refused. -/
def settle (g : Given) : Except Refusal Given :=
  match g.held with
  | none => .ok g
  | some (_, none) => .error .usage
  | some (slot, some text) => { g with held := none }.fill slot text

/-- Carry out a flag; no flag may be repeated. -/
def raise (g : Given) : Flag → Except Refusal Given
  | .noResolve => if g.noResolve then .error .usage else .ok { g with noResolve := true }
  | .help => .error .help
  | .version => .error .version

/-- An option with the value attached to it, if any. -/
def switch (g : Given) (s : Switch) (attached : Option String) : Except Refusal Given := do
  match s, attached with
  | .flag _, some _ => .error .usage
  | .flag f, none => (← g.settle).raise f
  | .takes slot, some text => (← g.settle).fill slot text
  | .takes slot, none => return { (← g.settle) with held := some (slot, none) }

/-- Options of one letter behind one dash.  What follows an option that takes a value is its value,
with or without an equals sign before it. -/
def letters (g : Given) (level : Level) : List Char → Except Refusal Given
  | [] => .ok g
  | c :: rest =>
    match shortSwitch? level c with
    | none => .error .usage
    | some (.flag f) => do
      let g ← g.switch (.flag f) none
      g.letters level rest
    | some (.takes slot) =>
      match rest with
      | [] => g.switch (.takes slot) none
      | '=' :: value => g.switch (.takes slot) (some (String.ofList value))
      | value => g.switch (.takes slot) (some (String.ofList value))

/-- An option with a long name, with or without an equals sign and a value behind it. -/
def longOption (g : Given) (level : Level) (text : List Char) : Except Refusal Given :=
  let name := String.ofList (text.takeWhile (· != '='))
  let attached := match text.dropWhile (· != '=') with
    | [] => none
    | _ :: value => some (String.ofList value)
  match longSwitch? level name with
  | some s => g.switch s attached
  | none => .error .usage

/-- A file; there is room for one. -/
def positional (g : Given) (text : String) : Except Refusal Given := do
  if g.fileSeen then .error .usage
  else return { (← g.settle) with held := some (.file, some text), fileSeen := true }

/-- Whether an option waits for its value. -/
def waiting? (g : Given) : Option Slot :=
  match g.held with
  | some (slot, none) => some slot
  | _ => none

/-- One argument that is neither a subcommand nor the mark that ends the options. -/
def argument (g : Given) (level : Level) (text : String) : Except Refusal Given :=
  match text.toList, g.waiting? with
  | '-' :: '-' :: name, _ => g.longOption level name
  | '-' :: c :: rest, _ => g.letters level (c :: rest)
  | _, some slot => .ok { g with held := some (slot, some text) }
  | _, none => g.positional text

/-- All arguments behind a subcommand.  Behind the mark `--` everything is a file. -/
def arguments (g : Given) (level : Level) : List String → Except Refusal Given
  | [] => g.settle
  | "--" :: rest => do (← rest.foldlM positional g).settle
  | text :: rest => do (← g.argument level text).arguments level rest

end Given

/-- The request for help on a subcommand, which must exist. -/
def helpOn : List String → Refusal
  | [] => .help
  | [name] => if name = "build" ∨ name = "run" ∨ name = "help" then .help else .usage
  | _ => .usage

/-- The subcommand behind its name, with what was given for it. -/
def subcommand (level : Level) (args : List String) : Except Refusal (Subcommand × Given) := do
  let g ← ({} : Given).arguments level args
  match g.value? .file, level with
  | some file, .build => return (.build file (g.value? .output), g)
  | some file, _ => return (.run file, g)
  | none, _ => .error .usage

/-- The arguments before any subcommand, with the subcommand if there is one. -/
def topLevel (g : Given) : List String → Except Refusal (Given × Option (Subcommand × Given))
  | [] => do return (← g.settle, none)
  | text :: rest => do
    if g.waiting?.isNone && text == "help" then .error (helpOn rest)
    else if g.waiting?.isNone && text == "build" then
      let sub ← subcommand .build rest
      return (← g.settle, some sub)
    else if g.waiting?.isNone && text == "run" then
      let sub ← subcommand .run rest
      return (← g.settle, some sub)
    else if text == "--" then
      return (← (← rest.foldlM Given.positional g).settle, none)
    else topLevel (← g.argument .top text) rest

/-- Whether a file and an option that names another file are both given. -/
def conflicting (g : Given) : Bool :=
  (g.value? .file).isSome
    && [Slot.lexFile, .parseFile, .checkFile, .emitFile].any fun slot => (g.value? slot).isSome

end Arguments

open Arguments in
/-- What a list of arguments asks for.  The options on names and steps may stand on either side of a
subcommand, and the later one counts. -/
def Invocation.ofArguments (args : List String) : Except Refusal Invocation := do
  let (top, sub) ← topLevel {} args
  if conflicting top then .error .usage
  else
    let inner := (sub.map Prod.snd).getD {}
    return {
      command := sub.map Prod.fst
      file := top.value? .file
      lexFile := top.value? .lexFile
      parseFile := top.value? .parseFile
      checkFile := top.value? .checkFile
      emitFile := top.value? .emitFile
      noResolve := top.noResolve || inner.noResolve
      maxSteps := ((inner.value? .maxSteps).orElse fun _ => top.value? .maxSteps).bind stepCount? }

end Scriptlet
