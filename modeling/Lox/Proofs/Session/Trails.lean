import Lox.Proofs.Running.Unwinding
import Lox.Proofs.Session.Reach
/-!
# The trails of sessions

All the machines that the run of a source goes through are stops of its trail. What is an
invariant of running programs, and holds when a run starts, holds at all of them and in the
session after the run.
-/

namespace Lox.Session

/-- The machine in which a source that is run starts. -/
def entry (f : SourceFile) (s : Session) : Machine :=
  s.machine.addDistances (Analysis.ofFile f s.nextId).distances

/-- The traced run of a source that is run. -/
def trail (fuel : Nat) (f : SourceFile) (s : Session) : Ending Trail Unit :=
  traceAll fuel (Analysis.ofFile f s.nextId).program.body (.start (s.entry f))

/-- The stops of the run of a source, the last one first. -/
def stops (fuel : Nat) (f : SourceFile) (s : Session) : List Stop :=
  if (Analysis.ofFile f s.nextId).errors.hasErrors then [] else (s.trail fuel f).state.stops

theorem get?_entry (f : SourceFile) (s : Session) (i : Nat) :
    (s.entry f).distances.get? i =
      ((Analysis.ofFile f s.nextId).distances.get? i).or (s.machine.distances.get? i) :=
  Distances.get?_extend _ _ _

variable {s t : Session} {f : SourceFile} {fuel : Nat} {o : Outcome}

theorem mem_stops {p : Stop} (hp : p ∈ s.stops fuel f) :
    (Analysis.ofFile f s.nextId).errors.hasErrors = false ∧ p ∈ (s.trail fuel f).state.stops := by
  unfold stops at hp
  split at hp
  · cases hp
  · rename_i he
    exact ⟨by simpa using he, hp⟩

theorem result_trail (fuel : Nat) (f : SourceFile) (s : Session) :
    (s.trail fuel f).result =
      interpret fuel (Analysis.ofFile f s.nextId).program.body (s.entry f) :=
  result_traceAll _ _ _

/-- A run of a source that is accepted leads to the last machine of its trail. -/
theorem machine_of_run (he : (Analysis.ofFile f s.nextId).errors.hasErrors = false)
    (hr : s.run fuel f = some (o, t)) :
    t = ⟨(s.trail fuel f).state.machine, (Analysis.ofFile f s.nextId).nextId, s.runs + 1⟩ := by
  have hf := result_trail fuel f s
  unfold run at hr
  dsimp only at hr
  rw [he, if_neg (by decide), ← entry, ← hf] at hr
  cases ht : s.trail fuel f with
  | done a u =>
    rw [ht] at hr
    cases hr
    rfl
  | fault e u =>
    rw [ht] at hr
    cases hr
    rfl
  | cut u =>
    rw [ht] at hr
    cases hr

/-- An invariant that holds at the start of a run is kept by it. -/
theorem follows {C : Condition} (hC : C.Invariant) (hd : (s.entry f).distances = C.distances)
    (hg : C.Good s.machine.store) (ha : C.At s.machine.store s.machine.frame)
    (hfit : ∀ p ∈ Stmt.spotsAll (Analysis.ofFile f s.nextId).program.body,
      C.Fits s.machine.store s.machine.frame p)
    (hallow : ∀ d ∈ Stmt.functionsAll (Analysis.ofFile f s.nextId).program.body, C.Allows d)
    (fuel : Nat) :
    C.Follows (max s.machine.depth s.machine.maxDepth) (.start (s.entry f))
      (s.trail fuel f).state :=
  follows_traceAll hC (.addDistances hg ha hd) hfit hallow fuel

end Lox.Session
