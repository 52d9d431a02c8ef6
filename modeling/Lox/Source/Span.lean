/-!
# Positions and spans

A position is a line and a column, both counted from one; positions are ordered first by line, then
by column. A span runs from the position of a first character to the position of a last one.
-/

namespace Lox

structure Position where
  line : Nat
  column : Nat
deriving DecidableEq, Repr

namespace Position

/-- The position of the first character of a text. -/
def start : Position := ⟨1, 1⟩

instance : LE Position where
  le p q := p.line < q.line ∨ (p.line = q.line ∧ p.column ≤ q.column)

instance (p q : Position) : Decidable (p ≤ q) :=
  inferInstanceAs (Decidable (p.line < q.line ∨ (p.line = q.line ∧ p.column ≤ q.column)))

instance : Min Position := minOfLe

instance : Max Position := maxOfLe

/-- The position that follows the character `c` standing at `p`. -/
def after (p : Position) (c : Char) : Position :=
  if c = '\n' then ⟨p.line + 1, 1⟩ else ⟨p.line, p.column + 1⟩

/-- The position that follows the text `cs` standing at `p`. -/
def afterAll (p : Position) (cs : List Char) : Position :=
  cs.foldl after p

theorem afterAll_nil (p : Position) : p.afterAll [] = p := rfl

theorem afterAll_cons (p : Position) (c : Char) (cs : List Char) :
    p.afterAll (c :: cs) = (p.after c).afterAll cs := rfl

theorem afterAll_append (p : Position) (cs ds : List Char) :
    p.afterAll (cs ++ ds) = (p.afterAll cs).afterAll ds :=
  List.foldl_append

end Position

structure Span where
  first : Position
  last : Position
deriving DecidableEq, Repr

namespace Span

/-- The span of the single position `p`. -/
def point (p : Position) : Span := ⟨p, p⟩

/-- The span of a text that starts at `p` and ends just before `q`: its last column is the one
before `q`, and never less than one. -/
def upTo (p q : Position) : Span := ⟨p, ⟨q.line, max (q.column - 1) 1⟩⟩

/-- The least span that covers both `a` and `b`. -/
def merge (a b : Span) : Span := ⟨min a.first b.first, max a.last b.last⟩

/-- The line that a fault is reported against. -/
def line (s : Span) : Nat := s.first.line

/-- The first position, as `line:column`. -/
def text (s : Span) : String := s!"{s.first.line}:{s.first.column}"

end Span

/-- Something that stands at a place in a source text. -/
structure Located (α : Type) where
  item : α
  span : Span
deriving Repr

end Lox
