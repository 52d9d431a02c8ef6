import Lox.Proofs.Running.Erasure
/-!
# The trail of a run

A traced run leaves behind every machine that it has been in: after each piece of work, and on
entering and leaving a frame or a call. Where a watched run keeps the moments at which expressions
get to work, a traced run keeps everything in between as well, so that something can be said of a
program at all times.
-/

namespace Lox

/-- A machine that a run has been in, with the event if there is one. -/
structure Stop where
  event : Option Event
  machine : Machine

/-- A machine and the stops so far, the last one first. -/
structure Trail where
  machine : Machine
  stops : List Stop

namespace Trail

/-- A trail that begins in a machine. -/
def start (m : Machine) : Trail := ⟨m, [⟨none, m⟩]⟩

/-- Goes on to a machine. -/
def go (t : Trail) (m : Machine) : Trail := ⟨m, ⟨none, m⟩ :: t.stops⟩

/-- Stops at an event. -/
def stop (t : Trail) (e : Event) : Trail := ⟨t.machine, ⟨some e, t.machine⟩ :: t.stops⟩

end Trail

instance : Recorder Trail where
  machine := Trail.machine
  go := Trail.go
  stop := Trail.stop
  machine_go _ _ := rfl
  machine_stop _ _ := rfl

abbrev Traced (α : Type) : Type := Process Trail α

theorem Traced.lift_eq {α : Type} (x : Run α) (t : Trail) :
    (Host.lift x : Traced α) t =
      match x t.machine with
      | .done a m => .done a (t.go m)
      | .fault e m => .fault e (t.go m)
      | .outOfFuel => .cut t := rfl

theorem Traced.nested_eq {α : Type} (x : Traced α) :
    Host.nested x =
      Process.around (fun t : Trail => t.go { t.machine with depth := t.machine.depth + 1 })
      (fun _ t => t.go { t.machine with depth := t.machine.depth - 1 }) x := rfl

/-- A traced call. -/
abbrev Traced.call : (Stmt → Traced Flow) → Value → List Value → Span → Traced Value := Host.call

abbrev Expr.trace : Nat → Expr → Traced Value := Expr.evalOn

abbrev Stmt.trace : Nat → Stmt → Traced Flow := Stmt.execOn

/-- A traced run of a program. -/
abbrev traceAll : Nat → List Stmt → Traced Unit := interpretOn

/-- A traced run ends as the run itself does. -/
theorem result_traceAll (fuel : Nat) (body : List Stmt) (m : Machine) :
    (traceAll fuel body (.start m)).result = interpret fuel body m :=
  result_interpretOn fuel body (Trail.start m)

end Lox
