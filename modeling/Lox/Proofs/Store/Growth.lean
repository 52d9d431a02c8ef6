import Lox.Store.Objects
/-!
# How the store grows

Frames are only added, keep their place in the chain, and lose no name. A frame gets a new name only
from a statement that runs in it; so the frames that are kept out of a piece of a run have the same
names before and after it.
-/

namespace Lox.Store

variable {s t u : Store} {f g : FrameId} {x y : String}

@[simp] theorem size_addFrame (s : Store) (fr : Frame) :
    (s.addFrame fr).2.frames.size = s.frames.size + 1 := by
  simp [addFrame]

@[simp] theorem size_define (s : Store) (f : FrameId) (x : String) (v : Value) :
    (s.define f x v).frames.size = s.frames.size := by
  simp [define]

theorem bound?_addFrame (s : Store) (fr : Frame) (f : FrameId) (x : String) :
    (s.addFrame fr).2.bound? f x = if f = s.frames.size then
      fr.bindings.find? x else s.bound? f x := by
  simp only [bound?, addFrame, Array.getElem?_push]
  split <;> rfl

theorem enclosing?_addFrame (s : Store) (fr : Frame) (f : FrameId) :
    (s.addFrame fr).2.enclosing? f = if f = s.frames.size then
      fr.enclosing else s.enclosing? f := by
  simp only [enclosing?, addFrame, Array.getElem?_push]
  split <;> rfl

theorem bound?_define (s : Store) (f : FrameId) (x : String) (v : Value) (g : FrameId)
    (y : String) :
    (s.define f x v).bound? g y =
      if f = g ∧ x = y ∧ g < s.frames.size then some v else s.bound? g y := by
  simp only [bound?, define, Array.getElem?_modify]
  by_cases hf : f = g
  · subst hf
    cases h : s.frames[f]? with
    | none => simp [Nat.not_lt.mpr (Array.getElem?_eq_none_iff.mp h)]
    | some fr =>
      have hlt : f < s.frames.size := (Array.getElem?_eq_some_iff.mp h).1
      simp [hlt, Table.find?_insert]
  · simp [hf]

@[simp] theorem enclosing?_define (s : Store) (f : FrameId) (x : String) (v : Value) (g : FrameId) :
    (s.define f x v).enclosing? g = s.enclosing? g := by
  simp only [enclosing?, define, Array.getElem?_modify]
  by_cases hf : f = g
  · cases s.frames[g]? <;> simp [hf]
  · simp [hf]

/-- A variable of a new frame can be there from the start. -/
theorem define_addFrame (s : Store) (fr : Frame) (x : String) (v : Value) :
    (s.addFrame fr).2.define s.frames.size x v =
      (s.addFrame { fr with bindings := fr.bindings.insert x v }).2 := by
  have hframes : (s.frames.push fr).modify s.frames.size
      (fun fr => { fr with bindings := fr.bindings.insert x v }) =
        s.frames.push { fr with bindings := fr.bindings.insert x v } := by
    apply Array.ext_getElem?
    intro i
    rw [Array.getElem?_modify, Array.getElem?_push, Array.getElem?_push]
    by_cases hi : i = s.frames.size
    · simp [hi]
    · simp [hi, Ne.symm hi]
  rw [define, addFrame, hframes]
  rfl

theorem lt_of_bound? (h : (s.bound? f x).isSome) : f < s.frames.size := by
  rcases Nat.lt_or_ge f s.frames.size with hf | hf
  · exact hf
  · simp [bound?, Array.getElem?_eq_none hf] at h

theorem lt_of_enclosing? (h : s.enclosing? f = some g) : f < s.frames.size := by
  rcases Nat.lt_or_ge f s.frames.size with hf | hf
  · exact hf
  · simp [enclosing?, Array.getElem?_eq_none hf] at h

/-- `t` comes after `s`, and nothing has run in the frames with `K`. -/
structure Grows (K : FrameId → Prop) (s t : Store) : Prop where
  size : s.frames.size ≤ t.frames.size
  enclosing : ∀ f < s.frames.size, t.enclosing? f = s.enclosing? f
  bound : ∀ f x, (s.bound? f x).isSome → (t.bound? f x).isSome
  names : ∀ f x, f < s.frames.size → K f → (t.bound? f x).isSome → (s.bound? f x).isSome

namespace Grows

variable {K : FrameId → Prop}

/-- Only the frames matter. -/
theorem of_frames_eq (h : t.frames = s.frames) : Grows K s t := by
  have hb : ∀ f x, t.bound? f x = s.bound? f x := fun f x => by rw [bound?, bound?, h]
  refine ⟨Nat.le_of_eq (by rw [h]), fun f _ => by rw [enclosing?, enclosing?, h], fun f x hx => ?_,
    fun f x _ _ hx => ?_⟩
  · rwa [hb]
  · rwa [hb] at hx

theorem refl (s : Store) : Grows K s s := of_frames_eq rfl

theorem trans (h : Grows K s t) (h' : Grows K t u) : Grows K s u where
  size := Nat.le_trans h.size h'.size
  enclosing f hf := (h'.enclosing f (Nat.lt_of_lt_of_le hf h.size)).trans (h.enclosing f hf)
  bound f x hx := h'.bound f x (h.bound f x hx)
  names f x hf hk hx := h.names f x hf hk (h'.names f x (Nat.lt_of_lt_of_le hf h.size) hk hx)

theorem weaken {K' : FrameId → Prop} (h : Grows K s t) (hk : ∀ f, K' f → K f) :
    Grows K' s t :=
  ⟨h.size, h.enclosing, h.bound, fun f x hf hf' => h.names f x hf (hk f hf')⟩

theorem addFrame (s : Store) (fr : Frame) : Grows K s (s.addFrame fr).2 where
  size := by simp
  enclosing f hf := by rw [enclosing?_addFrame, if_neg (Nat.ne_of_lt hf)]
  bound f x hx := by rwa [bound?_addFrame, if_neg (Nat.ne_of_lt (lt_of_bound? hx))]
  names f x hf _ hx := by rwa [bound?_addFrame, if_neg (Nat.ne_of_lt hf)] at hx

/-- It is enough to keep the names of the frames that are there at the start. -/
theorem of_lt (h : Grows (· < s.frames.size) s t) : Grows (fun _ => True) s t :=
  ⟨h.size, h.enclosing, h.bound, fun f x hf _ => h.names f x hf hf⟩

/-- Only the frame that a name is defined in can get it as a new one. -/
theorem define (s : Store) (f : FrameId) (x : String) (v : Value) :
    Grows (· ≠ f) s (s.define f x v) where
  size := by simp
  enclosing g _ := enclosing?_define s f x v g
  bound g y hy := by
    rw [bound?_define]
    split
    · rfl
    · exact hy
  names g y hg hk hy := by
    rwa [bound?_define, if_neg fun h => hk h.1.symm] at hy

/-- A name that is bound can be bound again. -/
theorem redefine (v : Value) (h : (s.bound? f x).isSome) : Grows K s (s.define f x v) where
  size := by simp
  enclosing g _ := enclosing?_define s f x v g
  bound g y hy := (define s f x v).bound g y hy
  names g y hg _ hy := by
    rw [bound?_define] at hy
    split at hy
    · rename_i hfg
      rw [← hfg.1, ← hfg.2.1]
      exact h
    · exact hy

end Grows

end Lox.Store
