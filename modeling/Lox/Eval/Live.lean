import Lox.Eval.Host
/-!
# Runs in real time

A live run asks what time it is whenever the program reads the clock, and goes on when it is told.
Between two readings it does what the evaluator does.
-/

namespace Lox

/-- A computation that has come to an answer, or asks for a reading of the clock
and goes on with it. -/
inductive Dialogue (α : Type) where
  | answer (a : α)
  /-- Asks for the reading with the number `n`. -/
  | reading (n : Nat) (next : Float → Dialogue α)

namespace Dialogue

variable {α β : Type}

@[specialize] def bind (f : α → Dialogue β) : Dialogue α → Dialogue β
  | answer a => f a
  | reading n next => reading n fun t => (next t).bind f

def map (f : α → β) (d : Dialogue α) : Dialogue β := d.bind fun a => answer (f a)

/-- Goes on at a level of nesting after each reading. -/
def atLevel (level : Nat) : Dialogue α → Dialogue α
  | answer a => answer a
  | reading n next => reading n fun t => onLevelStack level fun _ => (next t).atLevel level

/-- The answer that is come to where `clock` gives the readings. -/
def answered (clock : Nat → Float) : Dialogue α → α
  | answer a => a
  | reading n next => (next (clock n)).answered clock

end Dialogue

def Live (α : Type) : Type := Machine → Dialogue (Result α)

namespace Live

variable {α β : Type}

@[always_inline, inline] protected def pure (a : α) : Live α := fun m => .answer (.done a m)

/-- Goes on with a result. -/
@[always_inline, inline] def andThen (f : α → Live β) (r : Result α) : Dialogue (Result β) :=
  match r with
  | .done a n => f a n
  | .fault e n => .answer (.fault e n)
  | .outOfFuel => .answer .outOfFuel

@[always_inline, inline] protected def bind (x : Live α) (f : α → Live β) : Live β := fun m =>
  match x m with
  | .answer r => andThen f r
  | d => d.bind (andThen f)

@[always_inline] instance : Monad Live where
  pure := Live.pure
  bind := Live.bind

@[always_inline] instance : Host Live where
  toMonad := inferInstance
  lift x := fun m => .answer (x m)
  ask f := fun m => .answer (.done (f m) m)
  note _ := Live.pure ()
  inFrame f x := fun m => (x { m with frame := f }).map fun r => r.on ({ · with frame := m.frame })
  nested x := fun m => (x { m with depth := m.depth + 1 }).map fun r => r.on fun n =>
    { n with depth := n.depth - 1 }
  cut := fun _ => .answer .outOfFuel
  fault cause span := fun m => .answer (.fault ⟨cause, span⟩ m)
  readClock := fun m => .reading m.readings fun t =>
    .answer (.done (.number t) { m with readings := m.readings + 1 })
  atLevel level x := fun m => (onLevelStack level fun _ => x () m).atLevel level

end Live

/-- A live run of a program. -/
def interpretLive (fuel : Nat) (body : List Stmt) : Live Unit := interpretOn fuel body

end Lox
