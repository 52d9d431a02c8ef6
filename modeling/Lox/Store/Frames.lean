import Lox.Store.Basic
/-!
# Frames

A variable is reached in one of two ways: by searching the frames outward from a given one, or in
the frame that lies a given number of links out. The second way looks at that frame alone.
-/

namespace Lox.Store

/-- A new frame without bindings. -/
def addScope (s : Store) (enclosing : Option FrameId) : FrameId × Store :=
  s.addFrame ⟨.empty, enclosing⟩

/-- What the frame `f` itself binds the name to. -/
def bound? (s : Store) (f : FrameId) (x : String) : Option Value :=
  (s.frames[f]?).bind (·.bindings.find? x)

/-- Binds the name in the frame `f`, whatever it was bound to there. -/
def define (s : Store) (f : FrameId) (x : String) (v : Value) : Store :=
  { s with frames := s.frames.modify f fun fr => { fr with bindings := fr.bindings.insert x v } }

def enclosing? (s : Store) (f : FrameId) : Option FrameId :=
  (s.frames[f]?).bind Frame.enclosing

/-- The frame `d` links out from `f`. -/
def ancestor? (s : Store) : Nat → FrameId → Option FrameId
  | 0, f => some f
  | d + 1, f => (s.enclosing? f).bind (s.ancestor? d)

/-- The first frame that binds the name, looking at no more than `n` frames from `f` outward. -/
def nearestIn? (s : Store) (x : String) : Nat → FrameId → Option FrameId
  | 0, _ => none
  | n + 1, f =>
    if (s.bound? f x).isSome then some f
    else (s.enclosing? f).bind (s.nearestIn? x n)

/-- The first frame from `f` outward that binds the name. No chain of frames is longer than their
number. -/
def nearest? (s : Store) (f : FrameId) (x : String) : Option FrameId :=
  s.nearestIn? x s.frames.size f

def get? (s : Store) (f : FrameId) (x : String) : Option Value :=
  (s.nearest? f x).bind (s.bound? · x)

/-- Gives the nearest variable with the name a new value. -/
def assign? (s : Store) (f : FrameId) (x : String) (v : Value) : Option Store :=
  (s.nearest? f x).map (s.define · x v)

/-- The frame `d` links out from `f`, if it binds the name. -/
def bindingAt? (s : Store) (f : FrameId) (d : Nat) (x : String) : Option FrameId :=
  (s.ancestor? d f).filter fun g => (s.bound? g x).isSome

def getAt? (s : Store) (f : FrameId) (d : Nat) (x : String) : Option Value :=
  (s.ancestor? d f).bind (s.bound? · x)

/-- Gives the variable in the frame `d` links out a new value. -/
def assignAt? (s : Store) (f : FrameId) (d : Nat) (x : String) (v : Value) : Option Store :=
  (s.bindingAt? f d x).map (s.define · x v)

end Lox.Store
