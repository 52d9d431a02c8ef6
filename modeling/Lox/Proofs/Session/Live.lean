import Lox.Proofs.Running.Live
import Lox.Session.Live
/-!
# Sessions in real time and sessions with a clock

What is shown live does not depend on when the time is asked for: a live session that is told the
time by a clock answers as the session does that has this clock from the start.
-/

namespace Lox

namespace Session

/-- The session with another clock. -/
def atClock (s : Session) (c : Nat → Float) : Session := { s with machine := s.machine.atClock c }

theorem ended_on (f : SourceFile) (a : Analysis) (s : Session) (c : Nat → Float) (r : Result Unit) :
    (s.atClock c).ended f a (r.on (·.atClock c)) =
      (s.ended f a r).map (Prod.map id (·.atClock c)) := by
  cases r <;> rfl

/-- A live session that is told the time by a clock runs a source as the session
with that clock does. -/
theorem answered_converse (fuel : Nat) (f : SourceFile) (s : Session) (c : Nat → Float) :
    ((s.converse fuel f).answered c).map (Prod.map id (·.atClock c)) =
      (s.atClock c).run fuel f := by
  unfold converse run
  rw [show (s.atClock c).nextId = s.nextId from rfl]
  dsimp only
  split
  · rfl
  · rw [Dialogue.answered_map, ← ended_on, answered_interpretLive]
    rfl

end Session

namespace Interactive

/-- The interactive session with another clock. -/
def atClock (i : Interactive) (c : Nat → Float) : Interactive :=
  { i with session := i.session.atClock c }

theorem take_atClock (line : String) (i : Interactive) (c : Nat → Float) :
    (i.atClock c).take line = ((i.take line).1.atClock c, (i.take line).2) := by
  unfold take
  rw [show (i.atClock c).pending = i.pending from rfl]
  cases i.pending <;> dsimp only <;> split <;> rfl

/-- What is answered to a line is what the session with the clock answers, and so it is for
the lines after it. -/
theorem answered_converse (fuel : Nat) (line : String) (i : Interactive) (c : Nat → Float) :
    ((i.converse fuel line).answered c).map (Prod.map id (·.atClock c)) =
      (i.atClock c).feed fuel line := by
  unfold converse feed
  rw [take_atClock]
  rcases i.take line with ⟨j, _ | f⟩
  · rfl
  · dsimp only
    rw [Dialogue.answered_map, show (j.atClock c).session = j.session.atClock c from rfl,
      ← Session.answered_converse]
    cases (j.session.converse fuel f).answered c <;> rfl

end Interactive

/-- A script that is run live leaves behind what it leaves behind with the clock that it was
told the time by. -/
theorem Transcript.answered_converse (fuel : Nat) (f : SourceFile) (json : Bool) (c : Nat → Float) :
    (Transcript.converse fuel f json).answered c = Transcript.run fuel c f json := by
  unfold Transcript.converse Transcript.run
  rw [Dialogue.answered_map, show Session.initial c = Session.live.atClock c from rfl,
    ← Session.answered_converse]
  cases (Session.live.converse fuel f).answered c <;> rfl

/-- A program that waits for a time goes on when it has come. -/
example : ((Transcript.converse 40 ⟨"wait.lox", "while (clock() < 2) {} print nil;"⟩ false).answered
    Float.ofNat).map (·.output) = some "nil\n".toUTF8 := by
  decide +kernel

end Lox
