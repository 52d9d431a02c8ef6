import Lox.Proofs.Lexical.Interpreter
import Lox.Proofs.Store.Covers
import Lox.Proofs.Scoping.Sound
/-!
# Cells of frames

A naming says which cell a variable in a frame is. The frames from one outward see a table of cells
when every name that the scopes hold as defined has, in the frame of its scope, the cell that the
table gives, and a name that no scope holds is not in the table. Nothing is asked of a name that is
declared and not yet defined.
-/

namespace Lox

open Lexical

/-- The cell of each variable of each frame. -/
abbrev Naming : Type := FrameId → String → Option Cell

namespace Naming

/-- Whether all that `κ` names has the same cell in `ν`. -/
def Extends (ν κ : Naming) : Prop := ∀ f x c, κ f x = some c → ν f x = some c

theorem Extends.refl (κ : Naming) : κ.Extends κ := fun _ _ _ h => h

theorem Extends.trans {κ ν μ : Naming} (h : ν.Extends κ) (h' : μ.Extends ν) : μ.Extends κ :=
  fun f x c hc => h' f x c (h f x c hc)

/-- One more name. -/
def add (κ : Naming) (f : FrameId) (x : String) (c : Cell) : Naming := fun g y =>
  if f = g ∧ x = y then some c else κ g y

@[simp] theorem add_self (κ : Naming) (f : FrameId) (x : String) (c : Cell) :
    κ.add f x c f x = some c :=
  if_pos ⟨rfl, rfl⟩

theorem extends_add {κ : Naming} {f : FrameId} {x : String} (h : κ f x = none) (c : Cell) :
    (κ.add f x c).Extends κ := by
  intro g y d hd
  rw [add, if_neg]
  · exact hd
  · rintro ⟨rfl, rfl⟩
    rw [h] at hd
    cases hd

end Naming

/-- Whether `r` is the cell of the variable that the name means in the frames from `f` outward. -/
def Naming.Finds (κ : Naming) (s : Store) (x : String) : FrameId → List Scope → Option Cell → Prop
  | _, [], r => r = none
  | f, c :: cs, r =>
    match c.find? x with
    | some true => r.isSome ∧ κ f x = r
    | some false => True
    | none => ∃ g, s.enclosing? f = some g ∧ κ.Finds s x g cs r

/-- Whether the table is right for the frames from `f` outward. -/
def Naming.Sees (κ : Naming) (s : Store) (f : FrameId) (cs : List Scope) (l : Locals) : Prop :=
  ∀ x, κ.Finds s x f cs (l.find? x)

namespace Naming

variable {κ ν : Naming} {s t : Store} {f g : FrameId} {x y : String} {c : Scope} {cs : List Scope}
  {r : Option Cell} {l : Locals} {K : FrameId → Prop}

theorem Finds.mono (h : κ.Finds s x f cs r) (hκ : ν.Extends κ) (hg : Store.Grows K s t) :
    ν.Finds t x f cs r := by
  induction cs generalizing f with
  | nil => exact h
  | cons c cs ih =>
    unfold Finds at h ⊢
    split at h
    · obtain ⟨d, rfl⟩ := Option.isSome_iff_exists.mp h.1
      exact ⟨rfl, hκ f x d h.2⟩
    · trivial
    · obtain ⟨g, he, hr⟩ := h
      exact ⟨g, (hg.enclosing f (Store.lt_of_enclosing? he)).trans he, ih hr⟩

theorem Sees.mono (h : κ.Sees s f cs l) (hκ : ν.Extends κ) (hg : Store.Grows K s t) :
    ν.Sees t f cs l :=
  fun x => (h x).mono hκ hg

/-! ### Looking up -/

/-- A name that the nearest scope does not hold as undefined has its cell at its distance. -/
theorem Finds.nearest {k : FunctionKind} {q : ClassKind} (h : κ.Finds s x f cs r) {d : Nat}
    (hd : (⟨cs, k, q⟩ : Context).nearest? x = some d)
    (hx : (⟨cs, k, q⟩ : Context).status? x = some true) :
    ∃ g e, s.ancestor? d f = some g ∧ κ g x = some e ∧ r = some e := by
  induction cs generalizing f d with
  | nil => cases hd
  | cons c cs ih =>
    rw [Context.nearest?_cons] at hd
    rw [Context.status?_cons] at hx
    unfold Finds at h
    cases hc : c.find? x with
    | some b =>
      rw [hc] at h hx
      obtain rfl : b = true := Option.some.inj hx
      rw [if_pos (by simp [Table.contains, hc])] at hd
      obtain rfl := Option.some.inj hd
      obtain ⟨e, rfl⟩ := Option.isSome_iff_exists.mp h.1
      exact ⟨f, e, rfl, h.2, rfl⟩
    | none =>
      rw [hc] at h hx
      rw [if_neg (by simp [Table.contains, hc])] at hd
      obtain ⟨n, hn, rfl⟩ := Option.map_eq_some_iff.mp hd
      obtain ⟨g, he, hr⟩ := h
      obtain ⟨a, e, ha, hae, hre⟩ := ih hr hn hx
      refine ⟨a, e, ?_, hae, hre⟩
      rw [Store.ancestor?, he]
      exact ha

/-- A name that no scope holds has no cell. -/
theorem Finds.eq_none {k : FunctionKind} {q : ClassKind} (h : κ.Finds s x f cs r)
    (hx : (⟨cs, k, q⟩ : Context).nearest? x = none) : r = none := by
  induction cs generalizing f with
  | nil => exact h
  | cons c cs ih =>
    rw [Context.nearest?_cons] at hx
    unfold Finds at h
    cases hc : c.find? x with
    | some b => simp [Table.contains, hc] at hx
    | none =>
      rw [hc] at h
      obtain ⟨g, -, hr⟩ := h
      rw [if_neg (by simp [Table.contains, hc])] at hx
      exact ih hr (Option.map_eq_none_iff.mp hx)

/-! ### Scopes and declarations -/

/-- A new frame for a new scope. -/
theorem Sees.openScope (h : κ.Sees s f cs l) :
    κ.Sees (s.addScope (some f)).2 s.frames.size (.empty :: cs) l := by
  intro x
  refine ⟨f, ?_, (h x).mono (.refl κ) (.addFrame (K := fun _ => True) s _)⟩
  exact (Store.enclosing?_addFrame s _ _).trans (if_pos rfl)

/-- While a name is declared and not yet defined the table is right for all others. -/
theorem Sees.declare (h : κ.Sees s f (c :: cs) l) (x : String) :
    κ.Sees s f (c.insert x false :: cs) l := by
  intro y
  have hy := h y
  unfold Finds at hy ⊢
  rw [Table.find?_insert]
  by_cases hxy : x = y
  · rw [if_pos hxy]
    trivial
  · rwa [if_neg hxy]

/-- A name that is defined gets a cell. -/
theorem Sees.define (h : κ.Sees s f (c :: cs) l) (hκ : ν.Extends κ) (hg : Store.Grows K s t)
    {e : Cell} (he : ν f x = some e) : ν.Sees t f (c.insert x true :: cs) (l.insert x e) := by
  intro y
  have hy := (h y).mono hκ hg
  unfold Finds at hy ⊢
  rw [Table.find?_insert, Table.find?_insert]
  by_cases hxy : x = y
  · subst hxy
    rw [if_pos rfl, if_pos rfl]
    exact ⟨rfl, he⟩
  · rwa [if_neg hxy, if_neg hxy]

end Naming

end Lox
