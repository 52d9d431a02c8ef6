/-!
# Tables

A table binds names to things. Binding a name that is bound already puts the new thing in the place
of the old one, so each name is bound at most once.
-/

namespace Lox

/-- The bindings in the order in which their names were first bound. -/
structure Table (α : Type) where
  entries : List (String × α)
deriving Repr

namespace Table

variable {α : Type}

def empty : Table α := ⟨[]⟩

/-- What the first entry with the name `x` holds. -/
def findIn (x : String) : List (String × α) → Option α
  | [] => none
  | (y, a) :: es => if y = x then some a else findIn x es

/-- Replaces the entry with the name `x`, or adds one at the end. -/
def insertIn (x : String) (a : α) : List (String × α) → List (String × α)
  | [] => [(x, a)]
  | (y, b) :: es => if y = x then (x, a) :: es else (y, b) :: insertIn x a es

def find? (t : Table α) (x : String) : Option α := findIn x t.entries

def contains (t : Table α) (x : String) : Bool := (t.find? x).isSome

def insert (t : Table α) (x : String) (a : α) : Table α := ⟨insertIn x a t.entries⟩

theorem findIn_insertIn (x y : String) (a : α) (es : List (String × α)) :
    findIn y (insertIn x a es) = if x = y then some a else findIn y es := by
  induction es with
  | nil => by_cases h : x = y <;> simp [insertIn, findIn, h]
  | cons e es ih =>
    obtain ⟨z, b⟩ := e
    by_cases hz : z = x
    · subst hz
      by_cases h : z = y <;> simp [insertIn, findIn, h]
    · by_cases h : x = y
      · subst h
        simp [insertIn, findIn, hz, ih]
      · by_cases hy : z = y
        · subst hy
          simp [insertIn, findIn, hz, h]
        · simp [insertIn, findIn, hz, hy, h, ih]

@[simp] theorem find?_empty (x : String) : (empty : Table α).find? x = none := rfl

theorem find?_insert (t : Table α) (x y : String) (a : α) :
    (t.insert x a).find? y = if x = y then some a else t.find? y :=
  findIn_insertIn x y a t.entries

@[simp] theorem find?_insert_self (t : Table α) (x : String) (a : α) :
    (t.insert x a).find? x = some a := by
  simp [find?_insert]

end Table

end Lox
