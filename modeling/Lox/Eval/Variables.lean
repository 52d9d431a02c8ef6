import Lox.Eval.Machine
/-!
# Access to variables

A variable is read and written from a frame outward, by a search, or in the frame a number of links
out. A name that is not found is a fault either way.
-/

namespace Lox.Run

/-- Puts the store in the place of the current one, or faults if there is none. -/
@[inline] def storeOrFault (s : Option Store) (cause : FaultCause) (span : Span) : Run Unit := do
  let s ← orFault s cause span
  update fun _ => ((), s)

/-- The value of the nearest variable with the name, from the frame `f` outward. -/
def getFrom (f : FrameId) (x : String) (span : Span) : Run Value := do
  orFault (← ask (·.store.get? f x)) (.undefinedVariable x) span

/-- Gives the nearest variable with the name, from the frame `f` outward, a new value. -/
def assignFrom (f : FrameId) (x : String) (v : Value) (span : Span) : Run Unit := do
  storeOrFault (← ask (·.store.assign? f x v)) (.undefinedVariable x) span

/-- The value of the variable in the frame `d` links out from `f`. -/
def getAt (f : FrameId) (d : Nat) (x : String) (span : Span) : Run Value := do
  orFault (← ask (·.store.getAt? f d x)) (.undefinedVariable x) span

/-- Gives the variable in the frame `d` links out from `f` a new value. -/
def assignAt (f : FrameId) (d : Nat) (x : String) (v : Value) (span : Span) : Run Unit := do
  storeOrFault (← ask (·.store.assignAt? f d x v)) (.undefinedVariable x) span

end Lox.Run
