import Lox.Eval.Fault
/-!
# Processes

A process is a computation on states that leaves a state behind however it ends, also when it is
cut off because its fuel is used up. So it can be said what a program has done up to any point of a
run that never ends.
-/

namespace Lox

inductive Ending (σ α : Type) where
  | done (a : α) (s : σ)
  | fault (f : Fault) (s : σ)
  | cut (s : σ)

/-- The state that is left behind. -/
def Ending.state {σ α : Type} : Ending σ α → σ
  | done _ s | fault _ s | cut s => s

def Process (σ α : Type) : Type := σ → Ending σ α

namespace Process

variable {σ α β : Type}

protected def pure (a : α) : Process σ α := fun s => .done a s

protected def bind (x : Process σ α) (f : α → Process σ β) : Process σ β := fun s =>
  match x s with
  | .done a t => f a t
  | .fault e t => .fault e t
  | .cut t => .cut t

instance : Monad (Process σ) where
  pure := Process.pure
  bind := Process.bind

def cut : Process σ α := fun s => .cut s

def fault (cause : FaultCause) (span : Span) : Process σ α := fun s => .fault ⟨cause, span⟩ s

/-- What `f` says about the state, which stays as it is. -/
def ask (f : σ → α) : Process σ α := fun s => .done (f s) s

def change (f : σ → α × σ) : Process σ α := fun s => .done (f s).1 (f s).2

/-- The value of `x`, or a fault if there is none. -/
def orFault (x : Option α) (cause : FaultCause) (span : Span) : Process σ α :=
  match x with
  | some a => pure a
  | none => fault cause span

/-- The value of `x`, or the fault that it is. -/
def ofExcept (x : Except FaultCause α) (span : Span) : Process σ α :=
  match x with
  | .ok a => pure a
  | .error cause => fault cause span

/-- Runs `x` on a state made by `enter`; `leave` makes the last state out of the first and the one
that `x` left, however `x` ended. -/
def around (enter : σ → σ) (leave : σ → σ → σ) (x : Process σ α) : Process σ α := fun s =>
  match x (enter s) with
  | .done a t => .done a (leave s t)
  | .fault e t => .fault e (leave s t)
  | .cut t => .cut (leave s t)

/-- The results of `f` on a list, in order. -/
def collect (f : α → Process σ β) : List α → Process σ (List β)
  | [] => pure []
  | a :: as => do
    let b ← f a
    let bs ← collect f as
    pure (b :: bs)

end Process

end Lox
