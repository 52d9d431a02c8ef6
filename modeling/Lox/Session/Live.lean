import Lox.Eval.Live
import Lox.Session.Command
/-!
# Sessions in real time

What a session does when its programs run live: each reading of the clock is asked for when
a program gets to it.
-/

namespace Lox

/-- A session that has run nothing yet, prints without limit, and is told the time. -/
def Session.live : Session := .initial fun _ => 0

/-- Runs a source, as `Session.run` does. -/
def Session.converse (fuel : Nat) (f : SourceFile) (s : Session) :
    Dialogue (Option (Outcome × Session)) :=
  let a := Analysis.ofFile f s.nextId
  if a.errors.hasErrors then .answer (some (s.rejected a))
  else (interpretLive fuel a.program.body (s.machine.addDistances a.distances)).map (s.ended f a)

/-- Takes one more line and runs the entry that it completes, as `Interactive.feed` does. -/
def Interactive.converse (fuel : Nat) (line : String) (i : Interactive) :
    Dialogue (Option (Reply × Interactive)) :=
  match i.take line with
  | (j, none) => .answer (some (⟨.empty, ""⟩, j))
  | (j, some f) => (j.session.converse fuel f).map (Option.map j.reply)

/-- Runs a script in a session of its own, as `Transcript.run` does. -/
def Transcript.converse (fuel : Nat) (f : SourceFile) (json : Bool) :
    Dialogue (Option Transcript) :=
  (Session.live.converse fuel f).map (Option.map (ofRun json))

end Lox
