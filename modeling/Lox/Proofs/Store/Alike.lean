/-!
# Things that belong together

Two stores are compared item by item: what one of them has at an address must belong to what
the other has there.
-/

namespace Lox

/-- Two things that belong together, or neither of them. -/
def Paired {α β : Type} (R : α → β → Prop) (a : Option α) (b : Option β) : Prop :=
  a = none ∧ b = none ∨ ∃ x y, a = some x ∧ b = some y ∧ R x y

theorem Paired.imp {α β : Type} {R Q : α → β → Prop} {a : Option α} {b : Option β}
    (h : Paired R a b) (hrq : ∀ x y, R x y → Q x y) : Paired Q a b := by
  obtain h | ⟨x, y, hx, hy, hr⟩ := h
  · exact .inl h
  · exact .inr ⟨x, y, hx, hy, hrq x y hr⟩

theorem Paired.of_rel {α β : Type} {R : α → β → Prop} {a : Option α} {b : Option β}
    (h : Option.Rel R a b) : Paired R a b := by
  cases h with
  | none => exact .inl ⟨rfl, rfl⟩
  | some h => exact .inr ⟨_, _, rfl, rfl, h⟩

/-- Two arrays of one length whose items belong together. -/
structure Alike {α β : Type} (R : α → β → Prop) (a : Array α) (b : Array β) : Prop where
  size : b.size = a.size
  items : ∀ i : Nat, Paired R a[i]? b[i]?

namespace Alike

variable {α β : Type} {R Q : α → β → Prop} {a : Array α} {b : Array β}

theorem empty : Alike R #[] #[] := ⟨rfl, fun _ => .inl ⟨rfl, rfl⟩⟩

theorem push (h : Alike R a b) {x : α} {y : β} (hxy : R x y) : Alike R (a.push x) (b.push y) where
  size := by simp [h.size]
  items i := by
    rw [Array.getElem?_push, Array.getElem?_push, h.size]
    split
    · exact .inr ⟨x, y, rfl, rfl, hxy⟩
    · exact h.items i

theorem imp (h : Alike R a b) (hrq : ∀ x y, R x y → Q x y) : Alike Q a b :=
  ⟨h.size, fun i => (h.items i).imp hrq⟩

end Alike

end Lox
