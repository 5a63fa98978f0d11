import Scriptlet.Program.Generate
import Scriptlet.Scope.Resolve
import Scriptlet.Token.Scan
import Scriptlet.Tree.Parse

/-!
# Compiling a source text

The stages joined: tokens, tree, names, program.  The first stage that finds a fault decides, and
looking up names can be left out.
-/

namespace Scriptlet

/-- Why a source text has no program. -/
inductive CompileFault where
  | lexical (d : Diagnostic)
  | syntactic (fault : SyntaxFault)
  | semantic (faults : List LocatedScopeFault)
  deriving Repr, DecidableEq

namespace CompileFault

/-- The diagnostics of a failure. -/
def diagnostics : CompileFault → List Diagnostic
  | lexical d => [d]
  | syntactic fault => [fault.diagnostic]
  | semantic faults => faults.map LocatedScopeFault.diagnostic

/-- The wording of a failure: one line for a single fault of form, and the bare messages of all
faults of scoping. -/
def message : CompileFault → String
  | lexical d => d.summary
  | syntactic fault => fault.diagnostic.summary
  | semantic faults => "\n".intercalate (faults.map fun f => f.fault.message)

end CompileFault

namespace Compile

/-- The tokens of a source text. -/
def tokens (source : String) : Except CompileFault (List Token) :=
  (Scan.ofString source).toExcept.mapError .lexical

/-- The tree of a source text. -/
def tree (source : String) : Except CompileFault Module := do
  let tokens ← tokens source
  (Module.parse tokens).mapError .syntactic

/-- Look the names of a module up, unless that is left out. -/
def checkNames (resolve : Bool) (m : Module) : Except CompileFault Unit :=
  if resolve then (m.resolve.mapError .semantic).map fun _ => () else .ok ()

/-- The tree of a source text whose names have been looked up. -/
def check (resolve : Bool) (source : String) : Except CompileFault Module := do
  let m ← tree source
  checkNames resolve m
  return m

/-- The program of a module. -/
def ofModule (resolve : Bool) (m : Module) : Except CompileFault Program := do
  checkNames resolve m
  return m.generate

/-- The program of a source text. -/
def ofSource (resolve : Bool) (text : String) : Except CompileFault Program := do
  return (← check resolve text).generate

end Compile

end Scriptlet
