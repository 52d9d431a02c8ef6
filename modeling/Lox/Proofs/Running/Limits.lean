import Lox.Proofs.Running.Indifferent
/-!
# The limits of a machine

A machine limits how deep calls may nest and how much can be printed. Only a call and the printing
of a line look at these limits. All else that the evaluator does by itself is the same within any
limits, and leaves them as they are.
-/

namespace Lox

variable {α : Type}

/-- The greatest depth of calls, and the output with the room that it has left. -/
structure Limits where
  maxDepth : Nat
  output : Output

namespace Machine

def limits (m : Machine) : Limits := ⟨m.maxDepth, m.output⟩

/-- The machine with other limits. -/
def within (m : Machine) (l : Limits) : Machine :=
  { m with maxDepth := l.maxDepth, output := l.output }

@[simp] theorem within_limits (m : Machine) : m.within m.limits = m := rfl

@[simp] theorem limits_within (m : Machine) (l : Limits) : (m.within l).limits = l := rfl

@[simp] theorem store_within (m : Machine) (l : Limits) : (m.within l).store = m.store := rfl

@[simp] theorem frame_within (m : Machine) (l : Limits) : (m.within l).frame = m.frame := rfl

@[simp] theorem depth_within (m : Machine) (l : Limits) : (m.within l).depth = m.depth := rfl

instance : Aside within :=
  ⟨fun _ _ => rfl, fun _ _ => rfl, fun _ _ => rfl, fun _ _ _ => rfl⟩

end Machine

/-- The result in a machine with other limits. -/
def Result.within (r : Result α) (l : Limits) : Result α := r.on (·.within l)

/-- `r` is the same within any limits. -/
abbrev Run.Limitless (r : Run α) : Prop := r.Indifferent Machine.within

namespace Run.Limitless

variable {r : Run α}

/-- What is the same within any limits leaves them as they are. -/
theorem limits_of_done (h : r.Limitless) {m n : Machine} {a : α} (hr : r m = .done a n) :
    n.limits = m.limits := by
  have hm := h m m.limits
  rw [Machine.within_limits, hr] at hm
  injection hm with _ hn
  rw [hn, Machine.limits_within]

theorem limits_of_fault (h : r.Limitless) {m n : Machine} {e : Fault} (hr : r m = .fault e n) :
    n.limits = m.limits := by
  have hm := h m m.limits
  rw [Machine.within_limits, hr] at hm
  injection hm with _ hn
  rw [hn, Machine.limits_within]

theorem readClock : Limitless Run.readClock := fun _ _ => rfl

end Run.Limitless

end Lox
