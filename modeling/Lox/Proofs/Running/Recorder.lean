import Lox.Eval.Host
import Lox.Proofs.Running.Process
/-!
# Recorders

A recorder holds a machine and a record of where it has been. A process on recorders is a host: what
the evaluator asks for is done on the machine, and the record is kept beside it.
-/

namespace Lox

/-- States with a machine, and what they keep of going on to another one and of
getting to an event. -/
class Recorder (σ : Type) where
  machine (s : σ) : Machine
  go (s : σ) (m : Machine) : σ
  stop (s : σ) (e : Event) : σ
  machine_go (s : σ) (m : Machine) : machine (go s m) = m
  machine_stop (s : σ) (e : Event) : machine (stop s e) = machine s

namespace Process

open Recorder

variable {σ α : Type} [Recorder σ]

def lift (x : Run α) : Process σ α := fun s =>
  match x (machine s) with
  | .done a m => .done a (go s m)
  | .fault e m => .fault e (go s m)
  | .outOfFuel => .cut s

def note (e : Event) : Process σ Unit := fun s => .done () (stop s e)

def inFrame (f : FrameId) (x : Process σ α) : Process σ α :=
  around (fun s => go s { machine s with frame := f })
    (fun s t => go t { machine t with frame := (machine s).frame }) x

def nested (x : Process σ α) : Process σ α :=
  around (fun s => go s { machine s with depth := (machine s).depth + 1 })
    (fun _ t => go t { machine t with depth := (machine t).depth - 1 }) x

instance : Host (Process σ) where
  toMonad := inferInstance
  lift := Process.lift
  ask f := Process.ask fun s => f (machine s)
  note := Process.note
  inFrame := Process.inFrame
  nested := Process.nested
  cut := Process.cut
  fault := Process.fault
  readClock := Process.lift Run.readClock
  atLevel _ x := x ()

end Process

end Lox
