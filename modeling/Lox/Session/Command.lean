import Lox.Session.Interactive
/-!
# The command line

`lox [--dump-ast] [--json] [SCRIPT]` runs a script, shows its tree, or, without a script, runs what
it reads from its input. `lox --version` shows the version.
-/

namespace Lox

inductive Command where
  | version
  | run (path : String) (json : Bool)
  | dump (path : String) (json : Bool)
  | interactive (json : Bool)
  /-- A tree was asked for, but no script was given. -/
  | dumpNothing
  /-- An argument that means nothing. -/
  | misuse (argument : String)

namespace Command

/-- Reads arguments after those that chose `path`, `dump` and `json`. -/
def ofArguments (path : Option String) (dump json : Bool) : List String → Command
  | [] =>
    match path with
    | some p => if dump then .dump p json else .run p json
    | none => if dump then .dumpNothing else .interactive json
  | a :: as =>
    if a = "--version" ∨ a = "-V" then .version
    else if a = "--dump-ast" then ofArguments path true json as
    else if a = "--json" then ofArguments path dump true as
    else if path.isSome ∨ ("-".isPrefixOf a ∧ a ≠ "-") then .misuse a
    else ofArguments (some a) dump json as

/-- The script that a command needs. -/
def path? : Command → Option String
  | run path _ | dump path _ => some path
  | _ => none

end Command

/-- Why a script could not be read. -/
inductive ReadError where
  | notFound
  | isDirectory
  | notUtf8
  | other (reason : String)

def ReadError.text : ReadError → String
  | notFound => "No such file or directory (os error 2)"
  | isDirectory => "Is a directory (os error 21)"
  | notUtf8 => "stream did not contain valid UTF-8"
  | other reason => reason

/-- What a process leaves behind. -/
structure Transcript where
  exitCode : Nat
  output : ByteArray
  errors : String

namespace Transcript

def ofText (exitCode : Nat) (output errors : String) : Transcript :=
  ⟨exitCode, output.toUTF8, errors⟩

/-- What is shown of the outcome of a script. -/
def errorText (json : Bool) (o : Outcome) : String :=
  if json then o.report.toJson.pretty ++ "\n"
  else if o.isOk then ""
  else o.diagnostics.render ++ "\n"

def version : Transcript := ofText 0 "lox 0.1.1\n" ""

def dumpNothing : Transcript := ofText 64 "" "lox: --dump-ast needs a script\n"

def misuse (argument : String) : Transcript :=
  ofText 2 "" ("error: unexpected argument '" ++ argument ++ "' found\n")

def unreadable (path : String) (e : ReadError) : Transcript :=
  ofText 74 "" s!"lox: could not read '{path}': {e.text}\n"

/-- Shows the tree of a script. -/
def dump (f : SourceFile) (json : Bool) : Transcript :=
  match dumpSource f with
  | .ok tree => ofText 0 (tree ++ "\n") ""
  | .error errors => ofText 65 "" (errorText json (.staticErrors errors))

/-- What a script leaves behind that has run. -/
def ofRun (json : Bool) : Outcome × Session → Transcript := fun (o, s) =>
  ⟨o.exitCode, s.machine.output.written, errorText json o⟩

/-- Runs a script in a session of its own. -/
def run (fuel : Nat) (clock : Nat → Float) (f : SourceFile) (json : Bool) : Option Transcript :=
  ((Session.initial clock).run fuel f).map (ofRun json)

/-- Runs the lines of an input, of which an entry that is not complete at the end is dropped. -/
def interactive (fuel : Nat) (clock : Nat → Float) (input : String) (json : Bool) :
    Option Transcript :=
  match (Interactive.initial clock json).feedAll fuel (Entry.lines input.toList []) with
  | some r => some ⟨0, r.output, r.errors⟩
  | none => none

/-- The bytes of a script as text. -/
def decodeScript (bytes : Except ReadError ByteArray) : Except ReadError String :=
  match bytes with
  | .error e => .error e
  | .ok bs =>
    match String.fromUTF8? bs with
    | some s => .ok s
    | none => .error .notUtf8

/-- What is done for a command, where `read` gives the bytes of files: `script` runs a script,
`lines` runs lines, and `ready` takes what is left behind by anything else. -/
def dispatch {α : Type} (ready : Transcript → α) (script : SourceFile → Bool → α) (lines : Bool → α)
    (read : String → Except ReadError ByteArray) : Command → α
  | .version => ready version
  | .dumpNothing => ready dumpNothing
  | .misuse a => ready (misuse a)
  | .interactive json => lines json
  | .run path json =>
    match decodeScript (read path) with
    | .ok text => script ⟨path, text⟩ json
    | .error e => ready (unreadable path e)
  | .dump path json =>
    match decodeScript (read path) with
    | .ok text => ready (dump ⟨path, text⟩ json)
    | .error e => ready (unreadable path e)

/-- What a command leaves behind. -/
def ofCommand (fuel : Nat) (clock : Nat → Float) (read : String → Except ReadError ByteArray)
    (input : String) : Command → Option Transcript :=
  dispatch some (run fuel clock) (interactive fuel clock input) read

end Transcript

end Lox
