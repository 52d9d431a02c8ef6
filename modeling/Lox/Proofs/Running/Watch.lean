import Lox.Proofs.Running.Erasure
/-!
# Watching a program run

A watched run keeps a record of the moments at which an expression, after its operands,
gets to work of its own.
-/

namespace Lox

/-- An event and the machine when it comes. -/
structure Moment where
  event : Event
  machine : Machine

/-- A machine and the moments so far, the last one first. -/
structure Watch where
  machine : Machine
  moments : List Moment

instance : Recorder Watch where
  machine := Watch.machine
  go w m := { w with machine := m }
  stop w e := { w with moments := ⟨e, w.machine⟩ :: w.moments }
  machine_go _ _ := rfl
  machine_stop _ _ := rfl

abbrev Watched (α : Type) : Type := Process Watch α

theorem Watched.lift_eq {α : Type} (x : Run α) (w : Watch) :
    (Host.lift x : Watched α) w =
      match x w.machine with
      | .done a m => .done a { w with machine := m }
      | .fault e m => .fault e { w with machine := m }
      | .outOfFuel => .cut w := rfl

theorem Watched.inFrame_eq {α : Type} (f : FrameId) (x : Watched α) :
    Host.inFrame f x = Process.around (fun w : Watch => { w with machine.frame := f })
      (fun w v => { v with machine.frame := w.machine.frame }) x := rfl

theorem Watched.nested_eq {α : Type} (x : Watched α) :
    Host.nested x =
      Process.around (fun w : Watch => { w with machine.depth := w.machine.depth + 1 })
      (fun _ v => { v with machine.depth := v.machine.depth - 1 }) x := rfl

abbrev Expr.watch : Nat → Expr → Watched Value := Expr.evalOn

abbrev Stmt.watch : Nat → Stmt → Watched Flow := Stmt.execOn

/-- A watched run of a program. -/
abbrev watchAll : Nat → List Stmt → Watched Unit := interpretOn

/-- A watched run ends as the run itself does, whatever was recorded before. -/
theorem result_watchAll (fuel : Nat) (body : List Stmt) (w : Watch) :
    (watchAll fuel body w).result = interpret fuel body w.machine :=
  result_interpretOn fuel body w

end Lox
