import Lox.Diagnostic.Basic
/-!
# Sinks of diagnostics

A sink keeps the first twenty of the diagnostics put into it and counts them all.
-/

namespace Lox

structure Diagnostics where
  kept : List Diagnostic
  total : Nat
deriving Repr

namespace Diagnostics

/-- How many diagnostics a sink keeps. -/
def limit : Nat := 20

def empty : Diagnostics := ⟨[], 0⟩

def push (s : Diagnostics) (d : Diagnostic) : Diagnostics where
  kept := if s.kept.length < limit then s.kept ++ [d] else s.kept
  total := s.total + 1

/-- Puts in what `t` kept, then counts what `t` had to drop. -/
def extend (s t : Diagnostics) : Diagnostics :=
  let u := t.kept.foldl push s
  { u with total := u.total + (t.total - t.kept.length) }

def ofList (ds : List Diagnostic) : Diagnostics := ds.foldl push empty

/-- The sink of the errors of one stage, in order. -/
def ofErrors {ε : Type} [Reportable ε] (f : SourceFile) (es : List (Located ε)) : Diagnostics :=
  ofList (es.map (Diagnostic.ofError f))

def hasErrors (s : Diagnostics) : Bool := 0 < s.total

/-- The reports of the kept diagnostics, one below the other. -/
def render (s : Diagnostics) : String := "\n".intercalate (s.kept.map Diagnostic.render)

end Diagnostics

end Lox
