import Lox.Eval.Live
import Lox.Proofs.Running.Erasure
/-!
# Live runs

A live run whose questions are answered by a clock is the run of the machine with that clock. What
the live machine holds for a clock of its own plays no part.
-/

namespace Lox

variable {α β : Type}

namespace Dialogue

@[simp] theorem answered_bind (f : α → Dialogue β) (c : Nat → Float) (d : Dialogue α) :
    (d.bind f).answered c = (f (d.answered c)).answered c := by
  induction d with
  | answer a => rfl
  | reading n next ih => exact ih (c n)

@[simp] theorem answered_map (f : α → β) (c : Nat → Float) (d : Dialogue α) :
    (d.map f).answered c = f (d.answered c) :=
  answered_bind _ c d

@[simp] theorem answered_atLevel (level : Nat) (c : Nat → Float) (d : Dialogue α) :
    (d.atLevel level).answered c = d.answered c := by
  induction d with
  | answer a => rfl
  | reading n next ih =>
    simp only [atLevel, onLevelStack_eq]
    exact ih (c n)

end Dialogue

namespace Live

theorem answered_bind (x : Live α) (f : α → Live β) (m : Machine) (c : Nat → Float) :
    ((x >>= f) m).answered c = (andThen f ((x m).answered c)).answered c := by
  change (Live.bind x f m).answered c = _
  unfold Live.bind
  cases x m with
  | answer r => rfl
  | reading n next => exact Dialogue.answered_bind _ c _

private theorem answered_inFrame (f : FrameId) (x : Live α) (m : Machine) (c : Nat → Float) :
    (Host.inFrame f x m).answered c =
      ((x { m with frame := f }).answered c).on fun n => { n with frame := m.frame } :=
  Dialogue.answered_map _ c _

private theorem answered_nested (x : Live α) (m : Machine) (c : Nat → Float) :
    (Host.nested x m).answered c =
      ((x { m with depth := m.depth + 1 }).answered c).on fun n =>
        { n with depth := n.depth - 1 } :=
  Dialogue.answered_map _ c _

theorem answered_atLevel (level : Nat) (x : Unit → Live α) (m : Machine) (c : Nat → Float) :
    (Host.atLevel level x m).answered c = (x () m).answered c := by
  change ((onLevelStack level fun _ => x () m).atLevel level).answered c = _
  rw [Dialogue.answered_atLevel, onLevelStack_eq]

instance : Faithful Live where
  Erases x r := ∀ m c, ((x m).answered c).on (·.atClock c) = r (m.atClock c)
  erases_pure _ _ _ := rfl
  erases_bind {_ _ x r f g} h hf := by
    intro m c
    rw [answered_bind]
    change _ = Run.bind r g (m.atClock c)
    unfold Run.bind
    rw [← h m c]
    cases (x m).answered c with
    | done a n => exact hf a n c
    | fault e n => rfl
    | outOfFuel => rfl
  erases_lift h m c := (h m c).symm
  erases_ask h m c := congrArg (Result.done · (m.atClock c)) (h m c).symm
  erases_note _ h := h
  erases_inFrame {_ x r} f h := by
    intro m c
    have hx : ((x { m with frame := f }).answered c).on (·.atClock c) =
        r { m.atClock c with frame := f } := h _ c
    rw [answered_inFrame, Run.inFrame_eq, ← hx]
    cases (x { m with frame := f }).answered c <;> rfl
  erases_nested {_ x r} h := by
    intro m c
    have hx : ((x { m with depth := m.depth + 1 }).answered c).on (·.atClock c) =
        r { m.atClock c with depth := m.depth + 1 } := h _ c
    rw [answered_nested, Run.nested_eq, show (m.atClock c).depth = m.depth from rfl, ← hx]
    cases (x { m with depth := m.depth + 1 }).answered c <;> rfl
  erases_cut _ _ := rfl
  erases_fault _ _ _ _ := rfl
  erases_readClock _ _ := rfl
  erases_atLevel level h m c :=
    (congrArg (Result.on · _) (answered_atLevel level _ m c)).trans (h m c)

end Live

/-- A live run that is told the time by a clock ends as the run with that clock does. -/
theorem answered_interpretLive (fuel : Nat) (body : List Stmt) (m : Machine) (c : Nat → Float) :
    ((interpretLive fuel body m).answered c).on (·.atClock c) = interpret fuel body (m.atClock c) :=
  erases_interpretOn (M := Live) fuel body m c

end Lox
