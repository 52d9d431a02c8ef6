import Std.Data.TreeMap
/-!
# Distances

For an expression that names a local variable, its distance is the number of scopes between the
expression and the scope of the variable. Expressions are known by their numbers; one without a
distance names a global variable.
-/

namespace Lox

structure Distances where
  map : Std.TreeMap Nat Nat

namespace Distances

def empty : Distances := ⟨{}⟩

def get? (d : Distances) (id : Nat) : Option Nat := d.map[id]?

def insert (d : Distances) (id distance : Nat) : Distances := ⟨d.map.insert id distance⟩

/-- The distances of both; those of `e` count where both have one. -/
def extend (d e : Distances) : Distances :=
  e.map.foldl insert d

def size (d : Distances) : Nat := d.map.size

/-- The numbers with their distances, in ascending order. -/
def toList (d : Distances) : List (Nat × Nat) := d.map.toList

end Distances

end Lox
