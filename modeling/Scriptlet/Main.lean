import Scriptlet.Command.Perform

/-!
# The command line tool

The outermost layer: files, standard input and output of the real system.
-/

namespace Scriptlet.Main

/-- A refusal of the system as a fault of a file. -/
def fileFault : IO.Error → FileFault
  | .noFileOrDirectory .. => .notFound
  | .inappropriateType _ code _ => if code = 20 then .notDirectory else .isDirectory
  | .permissionDenied .. => .denied
  | e => .other (toString e)

/-- Read the bytes of a line, with its end. -/
partial def readLine (h : IO.FS.Stream) (line : ByteArray) : IO ByteArray := do
  let byte ← h.read 1
  if byte.isEmpty then return line
  else if byte == ⟨#[10]⟩ then return line ++ byte
  else readLine h (line ++ byte)

/-- Run a program, with a line of the input fetched whenever none is left, and what it displays
written at once. -/
partial def drive (p : Program) (settings : Settings) (s : State) : IO (Option RuntimeFault) := do
  let s ← if s.input.isEmpty && p.readsNext s then do
      let line ← readLine (← IO.getStdin) .empty
      pure { s with input := line.toList }
    else pure s
  let turn := p.turn settings s
  let s := turn.state
  unless s.screen.isEmpty do
    IO.print (String.join s.screen.reverse)
    (← IO.getStdout).flush
  match turn with
  | .next s => drive p settings { s with screen := [] }
  | .done _ => return none
  | .failed fault _ => return some fault

/-- The real system. -/
def host : Host IO where
  read path := do
    try return .ok (← IO.FS.readBinFile path)
    catch e => return .error (fileFault e)
  write path text := do
    try
      IO.FS.writeFile path text
      return .ok ()
    catch e => return .error (fileFault e)
  display text := IO.print text
  run p settings := drive p settings (.initial [] .empty)

end Scriptlet.Main

open Scriptlet in
/-- Carry out what the arguments ask for. -/
def main (args : List String) : IO UInt32 := do
  match Invocation.ofArguments args with
  | .error .version =>
    IO.print versionText
    return 0
  | .error .help =>
    IO.print usageText
    return 0
  | .error .usage =>
    IO.eprint usageText
    return 2
  | .ok i =>
    match ← Main.host.carryOut i with
    | .ok () => return 0
    | .error complaint =>
      IO.eprintln complaint.text
      return 1
