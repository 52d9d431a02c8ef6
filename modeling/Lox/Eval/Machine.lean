import Lox.Eval.Fault
import Lox.Eval.Output
import Lox.Eval.Stack
import Lox.Store.Objects
/-!
# The machine

The state of a running program, and computations on it. A computation ends with a result,
with a fault, or without either because its fuel is used up; in the first two cases there
is a state afterwards.
-/

namespace Lox

structure Machine where
  store : Store
  /-- The frame of the statement that is running. -/
  frame : FrameId
  distances : Distances
  /-- The number of calls that have been entered and not left. -/
  depth : Nat
  /-- The greatest number of nested calls. -/
  maxDepth : Nat
  output : Output
  /-- The readings of the clock, in seconds, in the order in which they are taken. -/
  clock : Nat → Float
  /-- The number of readings taken. -/
  readings : Nat

/-- The frame of the global variables. -/
def globals : FrameId := 0

namespace Machine

/-- The greatest number of nested calls unless another is asked for. -/
def defaultMaxDepth : Nat := 10000

/-- A machine that has run nothing yet. Its one global variable is `clock`. -/
def initial (output : Output) (maxDepth : Nat) (clock : Nat → Float) : Machine :=
  let (v, s) := Store.empty.addNative ⟨"clock", 0⟩
  let (f, s) := s.addFrame ⟨Table.empty.insert "clock" v, none⟩
  ⟨s, f, .empty, 0, maxDepth, output, clock, 0⟩

def addDistances (m : Machine) (d : Distances) : Machine :=
  { m with distances := m.distances.extend d }

end Machine

/-- How a statement ends: normally, or by returning a value from the innermost call. -/
inductive Flow where
  | normal
  | returned (v : Value)

inductive Result (α : Type) where
  | done (a : α) (m : Machine)
  | fault (f : Fault) (m : Machine)
  | outOfFuel

/-- The result in the machine that `h` makes of the last one. -/
@[inline] def Result.on {α : Type} (r : Result α) (h : Machine → Machine) : Result α :=
  match r with
  | done a n => done a (h n)
  | fault e n => fault e (h n)
  | outOfFuel => outOfFuel

theorem Result.on_id {α : Type} (r : Result α) : r.on id = r := by cases r <;> rfl

def Run (α : Type) : Type := Machine → Result α

namespace Run

variable {α β : Type}

@[always_inline, inline] protected def pure (a : α) : Run α := fun m => .done a m

@[always_inline, inline] protected def bind (x : Run α) (f : α → Run β) : Run β := fun m =>
  match x m with
  | .done a n => f a n
  | .fault e n => .fault e n
  | .outOfFuel => .outOfFuel

@[always_inline] instance : Monad Run where
  pure := Run.pure
  bind := Run.bind

@[inline] def outOfFuel : Run α := fun _ => .outOfFuel

@[inline] def fault (cause : FaultCause) (span : Span) : Run α := fun m => .fault ⟨cause, span⟩ m

/-- What `f` says about the machine, which stays as it is. -/
@[inline] def ask (f : Machine → α) : Run α := fun m => .done (f m) m

/-- Changes the store. -/
@[inline] def update (f : Store → α × Store) : Run α := fun m =>
  let (a, s) := f m.store
  .done a { m with store := s }

/-- The value of `x`, or a fault if there is none. -/
@[inline] def orFault (x : Option α) (cause : FaultCause) (span : Span) : Run α :=
  match x with
  | some a => pure a
  | none => fault cause span

/-- The value of `x`, or the fault that it is. -/
@[inline] def ofExcept (x : Except FaultCause α) (span : Span) : Run α :=
  match x with
  | .ok a => pure a
  | .error cause => fault cause span

/-- Binds a name in the current frame. -/
@[inline] def define (x : String) (v : Value) : Run Unit := fun m =>
  .done () { m with store := m.store.define m.frame x v }

/-- Runs `x` in the frame `f` and goes back to the current frame, however `x` ends. -/
@[inline] def inFrame (f : FrameId) (x : Run α) : Run α := fun m =>
  let current := m.frame
  match x { m with frame := f } with
  | .done a n => .done a { n with frame := current }
  | .fault e n => .fault e { n with frame := current }
  | .outOfFuel => .outOfFuel

theorem inFrame_eq (f : FrameId) (x : Run α) (m : Machine) :
    inFrame f x m = (x { m with frame := f }).on ({ · with frame := m.frame }) := rfl

/-- Runs `x` as a call: one level deeper, and back again however `x` ends. -/
@[inline] def nested (x : Run α) : Run α := fun m =>
  match x { m with depth := m.depth + 1 } with
  | .done a n => .done a { n with depth := n.depth - 1 }
  | .fault e n => .fault e { n with depth := n.depth - 1 }
  | .outOfFuel => .outOfFuel

theorem nested_eq (x : Run α) (m : Machine) :
    nested x m =
      (x { m with depth := m.depth + 1 }).on fun n => { n with depth := n.depth - 1 } := rfl

/-- Runs `x` at a level of nesting, which only decides on which stack it is computed. -/
@[inline] def atLevel (level : Nat) (x : Run α) : Run α := fun m => onLevelStack level fun _ => x m

@[simp] theorem atLevel_eq (level : Nat) (x : Run α) : atLevel level x = x := by
  funext m
  simp [atLevel]

/-- Writes a line of output. -/
@[inline] def printLine (s : String) (span : Span) : Run Unit := fun m =>
  match m.output.write (s ++ "\n") with
  | (true, o) => .done () { m with output := o }
  | (false, o) => .fault ⟨.outputFull, span⟩ { m with output := o }

/-- The next reading of the clock. -/
@[inline] def readClock : Run Value := fun m =>
  .done (.number (m.clock m.readings)) { m with readings := m.readings + 1 }

/-- The results of `f` on a list, in order. -/
@[specialize] def collect (f : α → Run β) : List α → Run (List β)
  | [] => pure []
  | a :: as => do
    let b ← f a
    let bs ← collect f as
    pure (b :: bs)

/-- Runs statements in order up to the first that returns. -/
@[specialize] def sequence (f : α → Run Flow) : List α → Run Flow
  | [] => pure .normal
  | a :: as => do
    match ← f a with
    | .normal => sequence f as
    | .returned v => pure (.returned v)

/-- Runs `body` as long as `test` holds and nothing is returned, no more than `n` times. -/
@[specialize] def loop (test : Run Bool) (body : Run Flow) : Nat → Run Flow
  | 0 => outOfFuel
  | n + 1 => do
    if ← test then
      match ← body with
      | .normal => loop test body n
      | .returned v => pure (.returned v)
    else
      pure .normal

end Run

end Lox
