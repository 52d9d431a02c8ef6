import Lox.Token.Scan
import Lox.Syntax.Statement
import Lox.Syntax.Dump
import Lox.Eval.Run
import Lox.Diagnostic.Report
/-!
# Sessions

A session runs one source after another on the same machine, so that what one run defines is there
for the next. A source with errors that can be seen without running it is not run at all, and leaves
the machine as it was.
-/

namespace Lox

/-- What is known about a source before it runs. -/
structure Analysis where
  program : Program
  distances : Distances
  errors : Diagnostics
  /-- The first number that no expression of the program has. -/
  nextId : Nat

namespace Analysis

/-- Analyzes tokens and the errors met in reading them from the text of `f`, numbering expressions
from `firstId`. Names are resolved in what could be read, even if there are errors. -/
def ofTokens (f : SourceFile) (lexed : Lexed) (firstId : Nat) : Analysis :=
  let parsed := Parsed.ofTokens lexed.tokens firstId
  let resolved := Resolved.ofStmts parsed.program.body
  let errors := Diagnostics.empty.extend (.ofErrors f lexed.errors)
  let errors := errors.extend (.ofErrors f parsed.errors)
  let errors := (resolved.errors.map (Diagnostic.ofError f)).foldl Diagnostics.push errors
  ⟨parsed.program, resolved.distances, errors, parsed.nextId⟩

def ofFile (f : SourceFile) (firstId : Nat) : Analysis := ofTokens f (.ofText f.text) firstId

end Analysis

/-- How a run ends. -/
inductive Outcome where
  | ok
  | staticErrors (errors : Diagnostics)
  | runtimeError (error : Diagnostic)

namespace Outcome

def isOk : Outcome → Bool
  | ok => true
  | _ => false

/-- The exit status of a process that ends with this outcome. -/
def exitCode : Outcome → Nat
  | ok => 0
  | staticErrors _ => 65
  | runtimeError _ => 70

def diagnostics : Outcome → Diagnostics
  | ok => .empty
  | staticErrors errors => errors
  | runtimeError error => .ofList [error]

def report (o : Outcome) : Report := ⟨o.isOk, o.diagnostics⟩

end Outcome

structure Session where
  machine : Machine
  /-- The number of the first expression of the next source. -/
  nextId : Nat
  /-- The number of runs so far. -/
  runs : Nat

namespace Session

/-- A session that has run nothing yet and prints without limit. -/
def initial (clock : Nat → Float) : Session :=
  ⟨.initial .unlimited Machine.defaultMaxDepth clock, 0, 0⟩

/-- The session after a source that is not run. -/
def rejected (a : Analysis) (s : Session) : Outcome × Session :=
  (.staticErrors a.errors, ⟨s.machine, a.nextId, s.runs + 1⟩)

/-- The session after a source whose program has ended. -/
def ended (f : SourceFile) (a : Analysis) (s : Session) : Result Unit → Option (Outcome × Session)
  | .done _ m => some (.ok, ⟨m, a.nextId, s.runs + 1⟩)
  | .fault e m => some (.runtimeError (.ofError f e), ⟨m, a.nextId, s.runs + 1⟩)
  | .outOfFuel => none

/-- Runs a source, unless `fuel` is not enough for it to end. -/
def run (fuel : Nat) (f : SourceFile) (s : Session) : Option (Outcome × Session) :=
  let a := Analysis.ofFile f s.nextId
  if a.errors.hasErrors then some (s.rejected a)
  else s.ended f a (interpret fuel a.program.body (s.machine.addDistances a.distances))

/-- The name of a source that is the next to run and has no name of its own. -/
def entryName (s : Session) : String := s!"<repl:{s.runs + 1}>"

end Session

/-- The tree of a source as text, or its errors of syntax. -/
def dumpSource (f : SourceFile) : Except Diagnostics String :=
  let lexed := Lexed.ofText f.text
  let parsed := Parsed.ofTokens lexed.tokens 0
  let errors := (Diagnostics.ofErrors f lexed.errors).extend (.ofErrors f parsed.errors)
  if errors.hasErrors then .error errors else .ok parsed.program.dump

/-- Fuel that no program uses up in the time there is. -/
def ampleFuel : Nat := 1000000000000000000

end Lox
