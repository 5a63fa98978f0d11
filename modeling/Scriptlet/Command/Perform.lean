import Scriptlet.Command.Arguments
import Scriptlet.Command.Files
import Scriptlet.Command.Path
import Scriptlet.Compile
import Scriptlet.Machine.Step
import Scriptlet.Program.Listing
import Scriptlet.Program.Stored
import Scriptlet.Tree.Outline

/-!
# Carrying out an invocation

What an invocation does is said in terms of a `Host`, which reads and writes files, runs programs
and writes to the screen.  The same description serves the real system and a system in memory.
-/

namespace Scriptlet

/-- What a command needs from the system it runs on. -/
structure Host (m : Type → Type) where
  /-- Read a file. -/
  read : String → m (Except FileFault ByteArray)
  /-- Write a file. -/
  write : String → String → m (Except FileFault Unit)
  /-- Write to the screen. -/
  display : String → m Unit
  /-- Run a program to its end, and give the fault that stopped it, if any. -/
  run : Program → Settings → m (Option RuntimeFault)

/-- A diagnostic as it is shown to the user: framed, if it marks a part of the source, and plain if
it reaches past the end. -/
inductive Rendering where
  | framed (d : Diagnostic) (report : String)
  | plain (report : String)
  deriving Repr, DecidableEq

/-- The text of a rendering. -/
def Rendering.text : Rendering → String
  | framed _ report => report
  | plain report => report

/-- How a diagnostic of a source text is shown. -/
def Diagnostic.render (file source : String) (d : Diagnostic) : Rendering :=
  let report := d.report file source
  if d.span.start + d.markedSize ≤ source.utf8ByteSize then .framed d report else .plain report

/-- Why a command fails. -/
inductive Complaint where
  | message (text : String)
  | diagnostics (renderings : List Rendering)
  deriving Repr, DecidableEq

/-- The text of a complaint. -/
def Complaint.text : Complaint → String
  | message text => text
  | diagnostics renderings => Text.trimEnd ("\n".intercalate (renderings.map Rendering.text))

/-- The complaint about a source text that does not compile. -/
def CompileFault.complaint (file source : String) (f : CompileFault) : Complaint :=
  .diagnostics (f.diagnostics.map (Diagnostic.render file source))

/-- What an invocation asks to be done with one file. -/
inductive Action where
  | tokens
  | outline
  | check
  | listing
  | build (output : Option String)
  | run
  deriving Repr, DecidableEq

/-- The action of an invocation with its file; the debugging options come before subcommands. -/
def Invocation.action? (i : Invocation) : Option (Action × String) :=
  let options := [i.lexFile.map (Action.tokens, ·), i.parseFile.map (.outline, ·),
    i.checkFile.map (.check, ·), i.emitFile.map (.listing, ·)]
  let command := i.command.map fun
    | .build file output => (Action.build output, file)
    | .run file => (.run, file)
  ((options ++ [command, i.file.map (.check, ·)]).findSome? id)

/-- The line of a token in a list of tokens. -/
def Token.line (t : Token) : String :=
  Text.padLeft 4 (toString t.span.line) ++ ":" ++ Text.padRight 3 (toString t.span.column) ++ " "
    ++ Text.padRight 10 t.kind.label ++ " " ++ Text.quoted t.text ++ "\n"

/-- The program in a file: stored programs are loaded, and others compiled. -/
def programOf (resolve : Bool) (file text : String) : Except Complaint Program :=
  if Path.isStored file then
    (Program.load text).mapError fun f =>
      .message ("Error loading \x27" ++ file ++ "\x27: " ++ f.message)
  else (Compile.ofSource resolve text).mapError (·.complaint file text)

/-- What is written to the screen when an action succeeds that neither writes nor runs anything. -/
def Action.answer (resolve : Bool) (file text : String) : Action → Except Complaint String
  | .tokens => do
    let tokens ← (Compile.tokens text).mapError (·.complaint file text)
    return String.join (tokens.map Token.line)
  | .outline => do
    let m ← (Compile.tree text).mapError (·.complaint file text)
    return (Outline.ofModule m).text 0 ++ "\n"
  | .listing => do return (← programOf resolve file text).listing
  | _ => do
    let _ ← (Compile.check resolve text).mapError (·.complaint file text)
    return "✓ Check passed!\n"

variable {m : Type → Type} [Monad m]

/-- Store the program of a file, by default beside it. -/
def Host.build (host : Host m) (resolve : Bool) (file text : String) (output : Option String) :
    m (Except Complaint Unit) := do
  match programOf resolve file text with
  | .error complaint => return .error complaint
  | .ok p =>
    let path := output.getD (Path.storedPath file)
    match ← host.write path (p.store ++ "\n") with
    | .error f =>
      return .error (.message ("Error writing \x27" ++ path ++ "\x27: " ++ f.message))
    | .ok () =>
      host.display ("✓ Wrote " ++ path ++ "\n")
      return .ok ()

/-- Run the program of a file. -/
def Host.runFile (host : Host m) (i : Invocation) (file text : String) :
    m (Except Complaint Unit) := do
  match programOf (!i.noResolve) file text with
  | .error complaint => return .error complaint
  | .ok p =>
    match ← host.run p ⟨true, i.maxSteps⟩ with
    | none => return .ok ()
    | some f => return .error (.message ("Runtime error in \x27" ++ file ++ "\x27: " ++ f.message))

/-- Carry out an action on the text of a file. -/
def Host.perform (host : Host m) (i : Invocation) (action : Action) (file text : String) :
    m (Except Complaint Unit) := do
  match action with
  | .build output => host.build (!i.noResolve) file text output
  | .run => host.runFile i file text
  | action =>
    match action.answer (!i.noResolve) file text with
    | .error complaint => return .error complaint
    | .ok text =>
      host.display text
      return .ok ()

/-- Carry out an invocation. -/
def Host.carryOut (host : Host m) (i : Invocation) : m (Except Complaint Unit) := do
  match i.action? with
  | none => return .error (.message "Error: no input file (try \x60dark8 --help\x60)")
  | some (action, file) =>
    match (← host.read file).bind decodeText with
    | .error f =>
      return .error (.message ("Error reading \x27" ++ file ++ "\x27: " ++ f.message))
    | .ok text => host.perform i action file text

/-- The name and version of the tool. -/
def versionText : String := "dark8 0.1.0\n"

/-- How the tool is called. -/
def usageText : String :=
  "\n".intercalate [
    "Usage: dark8 [OPTIONS] [FILE] [COMMAND]",
    "",
    "Commands:",
    "  build FILE [-o OUT]  compile a source file and store the program",
    "  run FILE             compile or load a program and run it",
    "",
    "Options:",
    "  --lex FILE           list the tokens of a file",
    "  --parse FILE         print the tree of a file",
    "  --check FILE         check a file",
    "  --emit-ir FILE       list the program of a file",
    "  --no-resolve         do not look names up",
    "  --max-steps N        stop after N instructions",
    "  -h, --help           print this text",
    "  -V, --version        print the version",
    ""]

end Scriptlet
