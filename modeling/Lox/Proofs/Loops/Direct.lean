import Lox.Eval.Run
import Lox.Syntax.Statement
/-!
# `for` loops

What a `for` loop means when it is not read as an abbreviation. The initial statement is run once,
in a scope of its own; then, as long as the condition holds, the body is run and after it the
increment. Condition, increment and body stand in one scope, which all rounds share, and no round
has a scope besides.
-/

namespace Lox

namespace Run

/-- Runs `x` in a new scope. -/
def inScope {α : Type} (x : Run α) : Run α := do
  let current ← ask Machine.frame
  let frame ← update (·.addScope (some current))
  inFrame frame x

/-- Runs `x` and then `y`, which is skipped where `x` returns or stops at a fault. -/
def andThen (x y : Run Flow) : Run Flow := do
  match ← x with
  | .normal => y
  | .returned v => pure (.returned v)

end Run

/-- The clauses of a `for` loop, of which all but the body can be missing. -/
structure ForLoop where
  span : Span
  initial : Option Stmt
  condition : Option Expr
  increment : Option Expr
  body : Stmt

namespace ForLoop

/-- The statements that the loop stands for; `always` is the site of a condition that is missing. -/
def desugared (l : ForLoop) (always : Site) : Stmt :=
  .forLoop l.span l.initial (l.condition.getD (.literal always (.bool true))) l.increment l.body

/-! ### Running -/

/-- Whether there is another round. A condition that is missing always holds. -/
def test (l : ForLoop) (fuel : Nat) : Run Bool :=
  match l.condition with
  | none => pure true
  | some e => Value.isTruthy <$> e.eval fuel

/-- What follows a round whose body ended normally. -/
def advance (l : ForLoop) (fuel : Nat) : Run Flow :=
  match l.increment with
  | none => pure .normal
  | some e => do
    let _ ← e.eval fuel
    pure .normal

def round (l : ForLoop) (fuel : Nat) : Run Flow := (l.body.exec fuel).andThen (l.advance fuel)

def rounds (l : ForLoop) (fuel : Nat) : Run Flow := Run.loop (l.test fuel) (l.round fuel) fuel

/-- Runs the loop. -/
def run (l : ForLoop) (fuel : Nat) : Run Flow :=
  match l.initial with
  | none => l.rounds fuel
  | some s => .inScope ((s.exec fuel).andThen (l.rounds fuel))

/-! ### Resolving -/

/-- The walk behind the initial statement, if there is one. -/
def enter (l : ForLoop) (w : Walk) : Walk :=
  match l.initial with
  | none => w
  | some s => s.resolve w.openScope

/-- Resolves an expression that can be missing. -/
def resolveClause (w : Walk) : Option Expr → Walk
  | none => w
  | some e => e.resolve w

/-- Resolves the loop. The condition and the increment come before the body, none of whose
names they can see. -/
def resolve (l : ForLoop) (w : Walk) : Walk :=
  let inner := l.body.resolve (resolveClause (resolveClause (l.enter w) l.condition) l.increment)
  if l.initial.isSome then inner.closeScope else inner

end ForLoop

end Lox
