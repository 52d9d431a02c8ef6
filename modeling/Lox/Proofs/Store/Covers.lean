import Lox.Eval.Machine
import Lox.Proofs.Store.Growth
import Lox.Proofs.Scoping.Effect
/-!
# Frames and scopes

A chain of frames covers a list of scopes when it has a frame for every scope, binds there
what the scope holds as defined, and goes on to the frame of the global variables. Then the
frame of a variable lies as many links out as its scope lies scopes out. A frame that is
exact binds nothing else.
-/

namespace Lox

/-- Whether the frames from `f` outward belong to the scopes. -/
def Store.Covers (s : Store) : FrameId → List Scope → Prop
  | f, [] => f = globals
  | f, c :: cs =>
    (∀ x, c.find? x = some true → (s.bound? f x).isSome) ∧
    ∃ g, s.enclosing? f = some g ∧ s.Covers g cs

/-- Whether the frame `f` binds only what the innermost scope holds as defined. -/
def Store.Exact (s : Store) (f : FrameId) : List Scope → Prop
  | [] => True
  | c :: _ => ∀ x, (s.bound? f x).isSome → c.find? x = some true

namespace Store

variable {s t : Store} {f g : FrameId} {c : Scope} {cs : List Scope} {x : String}

@[simp] theorem getAt?_zero (s : Store) (f : FrameId) (x : String) :
    s.getAt? f 0 x = s.bound? f x := rfl

private theorem getAt?_succ (h : s.enclosing? f = some g) (d : Nat) (x : String) :
    s.getAt? f (d + 1) x = s.getAt? g d x := by
  rw [getAt?, ancestor?, h]
  rfl

theorem bindingAt?_eq_none_iff (s : Store) (f : FrameId) (d : Nat) (x : String) :
    s.bindingAt? f d x = none ↔ s.getAt? f d x = none := by
  rw [bindingAt?, getAt?]
  cases s.ancestor? d f <;> simp

theorem isSome_of_bindingAt? {d : Nat} (h : s.bindingAt? f d x = some g) : (s.bound? g x).isSome :=
  (Option.filter_eq_some_iff.mp h).2

private theorem isSome_of_nearestIn? {n : Nat} (h : s.nearestIn? x n f = some g) :
    (s.bound? g x).isSome := by
  induction n generalizing f with
  | zero => cases h
  | succ n ih =>
    unfold nearestIn? at h
    split at h
    · rename_i hf
      exact Option.some.inj h ▸ hf
    · obtain ⟨e, -, he⟩ := Option.bind_eq_some_iff.mp h
      exact ih he

theorem isSome_of_nearest? (h : s.nearest? f x = some g) : (s.bound? g x).isSome :=
  isSome_of_nearestIn? h

/-- A search from the frame of the global variables ends there. -/
theorem nearest?_globals (hr : s.enclosing? globals = none) (hg : globals < s.frames.size)
    (x : String) :
    s.nearest? globals x = if (s.bound? globals x).isSome then some globals else none := by
  obtain ⟨n, hn⟩ :=
    Nat.exists_eq_succ_of_ne_zero (Nat.ne_of_gt (Nat.lt_of_le_of_lt (Nat.zero_le _) hg))
  rw [nearest?, hn, nearestIn?, hr]
  rfl

theorem get?_globals (hr : s.enclosing? globals = none) (hg : globals < s.frames.size)
    (x : String) : s.get? globals x = s.bound? globals x := by
  rw [get?, nearest?_globals hr hg]
  cases hb : s.bound? globals x <;> simp [hb]

namespace Covers

/-- The chain has as many links as there are scopes. -/
theorem ancestor? (h : s.Covers f cs) : s.ancestor? cs.length f = some globals := by
  induction cs generalizing f with
  | nil => exact congrArg some h
  | cons c cs ih =>
    obtain ⟨-, g, hg, hcs⟩ := h
    rw [List.length_cons, Store.ancestor?, hg]
    exact ih hcs

/-- What a scope holds as defined is bound in its frame. -/
theorem getAt? (h : s.Covers f cs) {i : Nat} (hc : cs[i]? = some c) (hx : c.find? x = some true) :
    (s.getAt? f i x).isSome := by
  induction cs generalizing f i with
  | nil => cases hc
  | cons d cs ih =>
    obtain ⟨hd, g, hg, hcs⟩ := h
    cases i with
    | zero =>
      obtain rfl := Option.some.inj hc
      exact hd x hx
    | succ i =>
      rw [getAt?_succ hg]
      exact ih hcs hc

theorem lt_size (h : s.Covers f cs) (hg : globals < s.frames.size) : f < s.frames.size := by
  cases cs with
  | nil =>
    rw [show f = globals from h]
    exact hg
  | cons c cs =>
    obtain ⟨-, g, hg, -⟩ := h
    exact lt_of_enclosing? hg

theorem mono {K : FrameId → Prop} (h : s.Covers f cs) (hg : Grows K s t) : t.Covers f cs := by
  induction cs generalizing f with
  | nil => exact h
  | cons c cs ih =>
    obtain ⟨hc, g, he, hcs⟩ := h
    exact ⟨fun x hx => hg.bound f x (hc x hx), g,
      (hg.enclosing f (lt_of_enclosing? he)).trans he, ih hcs⟩

end Covers

theorem Exact.mono (h : s.Exact f cs) {K : FrameId → Prop} (hg : Grows K s t)
    (hf : f < s.frames.size) (hk : K f) : t.Exact f cs := by
  cases cs with
  | nil => trivial
  | cons c cs => exact fun x hx => h x (hg.names f x hf hk hx)

/-- The frames from `f` outward belong to the scopes, and `f` holds no more than its scope. -/
structure Mirrors (s : Store) (f : FrameId) (cs : List Scope) : Prop where
  covers : s.Covers f cs
  exact : s.Exact f cs

namespace Mirrors

theorem mono (h : s.Mirrors f cs) {K : FrameId → Prop} (hg : Grows K s t)
    (hf : f < s.frames.size) (hk : K f) : t.Mirrors f cs :=
  ⟨h.covers.mono hg, h.exact.mono hg hf hk⟩

/-- A name is bound in its frame when it gets to be defined in its scope. -/
theorem define (h : s.Mirrors f cs) (hf : f < s.frames.size) (x : String) (v : Value) :
    (s.define f x v).Mirrors f (defined (some x) cs) := by
  have hg := Grows.define s f x v
  cases cs with
  | nil => exact ⟨h.covers, trivial⟩
  | cons c cs =>
    obtain ⟨hc, g, he, hcs⟩ := h.covers
    refine ⟨⟨fun y hy => ?_, g, (enclosing?_define s f x v f).trans he, hcs.mono hg⟩,
      fun y hy => ?_⟩
    · rw [Table.find?_insert] at hy
      rw [bound?_define]
      by_cases hxy : x = y
      · rw [if_pos ⟨rfl, hxy, hf⟩]
        rfl
      · rw [if_neg fun hh => hxy hh.2.1]
        rw [if_neg hxy] at hy
        exact hc y hy
    · rw [bound?_define] at hy
      rw [Table.find?_insert]
      by_cases hxy : x = y
      · rw [if_pos hxy]
      · rw [if_neg fun hh => hxy hh.2.1] at hy
        rw [if_neg hxy]
        exact h.exact y hy

/-- A name that is declared where it is new changes nothing before it is defined. -/
theorem declare (h : s.Mirrors f (c :: cs)) (hx : c.find? x = none) :
    s.Mirrors f (c.insert x false :: cs) := by
  obtain ⟨hc, hcs⟩ := h.covers
  refine ⟨⟨fun y hy => ?_, hcs⟩, fun y hy => ?_⟩
  · rw [Table.find?_insert] at hy
    split at hy
    · cases hy
    · exact hc y hy
  · have hy' := h.exact y hy
    rw [Table.find?_insert, if_neg]
    · exact hy'
    · rintro rfl
      rw [hx] at hy'
      cases hy'

/-- A new frame for a new scope. -/
theorem addFrame (h : s.Covers f cs) {bindings : Table Value}
    (hb : ∀ x, (bindings.find? x).isSome ↔ c.find? x = some true) :
    (s.addFrame ⟨bindings, some f⟩).2.Mirrors s.frames.size (c :: cs) := by
  refine ⟨⟨fun x hx => ?_, f, ?_, h.mono (.addFrame (K := fun _ => True) s _)⟩, fun x hx => ?_⟩
  · rw [bound?_addFrame, if_pos rfl]
    exact (hb x).mpr hx
  · rw [enclosing?_addFrame, if_pos rfl]
  · rw [bound?_addFrame, if_pos rfl] at hx
    exact (hb x).mp hx

end Mirrors

end Store

end Lox
