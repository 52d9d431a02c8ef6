import Lox.Proofs.Scoping.Effect
import Lox.Proofs.Store.Growth
/-!
# Receivers

A bound method has a frame of its own, which holds `this` and lies inside the frame in which the
method was declared. What such a frame is, and which class inherits from which, is settled for good:
the store grows, but only plain names get new values.
-/

namespace Lox.Store

variable {s t u : Store} {f g : FrameId} {i : InstanceId} {c k p : ClassId} {cls : Class}
  {m : Closure} {x : String} {d : Nat}

/-- Whether `k` is the class `c` or one of the classes above it. -/
inductive Inherits (s : Store) : ClassId → ClassId → Prop where
  | refl (c : ClassId) : Inherits s c c
  | step {c p k : ClassId} {cls : Class} : s.classes[c]? = some cls → cls.superclass = some p →
    Inherits s p k → Inherits s c k

theorem Inherits.trans (h : s.Inherits c p) (h' : s.Inherits p k) : s.Inherits c k := by
  induction h with
  | refl => exact h'
  | step hc hp _ ih => exact .step hc hp (ih h')

/-- `cls`, with the address `k`, has the method `m` in its own table. -/
structure HasMethod (s : Store) (k : ClassId) (cls : Class) (m : Closure) : Prop where
  known : s.classes[k]? = some cls
  found : ∃ x, cls.methods.find? x = some m

/-- The frame `f` is one in which the method `m` of the class `k` is bound to the instance `i`. -/
structure Receives (s : Store) (f : FrameId) (i : InstanceId) (k : ClassId) (cls : Class)
    (m : Closure) : Prop where
  method : s.HasMethod k cls m
  enclosing : s.enclosing? f = some m.scope
  receiver : s.bound? f "this" = some (.object i)
  inherits : ∃ inst, s.instances[i]? = some inst ∧ s.Inherits inst.cls k

/-- A method is found in a class of the chain. -/
theorem hasMethod_of_method? (h : s.method? c x = some m) :
    ∃ k cls, s.Inherits c k ∧ s.HasMethod k cls m := by
  have hin : ∀ n c, s.methodIn? x n c = some m → ∃ k cls, s.Inherits c k ∧ s.HasMethod k cls m := by
    intro n
    induction n with
    | zero =>
      intro c hm
      cases hm
    | succ n ih =>
      intro c hm
      unfold methodIn? at hm
      split at hm
      · cases hm
      · rename_i cls hc
        split at hm
        · rename_i m' hx
          cases hm
          exact ⟨c, cls, .refl c, hc, x, hx⟩
        · obtain ⟨p, hp, hm⟩ := Option.bind_eq_some_iff.mp hm
          obtain ⟨k, cls', hk, hhas⟩ := ih p hm
          exact ⟨k, cls', .step hc hp hk, hhas⟩
  exact hin _ c h

theorem ancestor?_succ (h : s.ancestor? d f = some g) : s.ancestor? (d + 1) f = s.enclosing? g := by
  induction d generalizing f with
  | zero =>
    obtain rfl := Option.some.inj h
    exact Option.bind_fun_some _
  | succ d ih =>
    rw [ancestor?] at h ⊢
    obtain ⟨e, he, hg⟩ := Option.bind_eq_some_iff.mp h
    rw [he]
    exact ih hg

/-- `t` comes after `s`. -/
structure Extends (s t : Store) : Prop where
  grows : Grows (fun _ => False) s t
  bound : ∀ f < s.frames.size, ∀ x, ¬ Plain x → t.bound? f x = s.bound? f x
  classes : ∀ (k : ClassId) cls, s.classes[k]? = some cls → t.classes[k]? = some cls
  instances : ∀ (i : InstanceId) inst, s.instances[i]? = some inst →
    ∃ inst', t.instances[i]? = some inst' ∧ inst'.cls = inst.cls

theorem not_plain_this : ¬ Plain "this" := fun h => h.1 rfl

theorem not_plain_super : ¬ Plain "super" := fun h => h.2 rfl

namespace Extends

theorem refl (s : Store) : Extends s s :=
  ⟨.refl s, fun _ _ _ _ => rfl, fun _ _ hk => hk, fun _ inst hi => ⟨inst, hi, rfl⟩⟩

theorem trans (h : Extends s t) (h' : Extends t u) : Extends s u where
  grows := h.grows.trans h'.grows
  bound f hf x hx :=
    (h'.bound f (Nat.lt_of_lt_of_le hf h.grows.size) x hx).trans (h.bound f hf x hx)
  classes k cls hk := h'.classes k cls (h.classes k cls hk)
  instances i inst hi := by
    obtain ⟨inst', hi', hcls⟩ := h.instances i inst hi
    obtain ⟨inst'', hi'', hcls'⟩ := h'.instances i inst' hi'
    exact ⟨inst'', hi'', hcls'.trans hcls⟩

theorem ancestor? (h : Extends s t) (hg : s.ancestor? d f = some g) : t.ancestor? d f = some g := by
  induction d generalizing f with
  | zero => exact hg
  | succ d ih =>
    rw [Store.ancestor?] at hg ⊢
    obtain ⟨e, he, hg⟩ := Option.bind_eq_some_iff.mp hg
    rw [h.grows.enclosing f (lt_of_enclosing? he), he]
    exact ih hg

theorem inherits (h : Extends s t) (hc : s.Inherits c k) : t.Inherits c k := by
  induction hc with
  | refl => exact .refl _
  | step hc hp _ ih => exact .step (h.classes _ _ hc) hp ih

theorem hasMethod (h : Extends s t) (hm : s.HasMethod k cls m) : t.HasMethod k cls m :=
  ⟨h.classes k cls hm.known, hm.found⟩

theorem receives (h : Extends s t) (hr : s.Receives f i k cls m) : t.Receives f i k cls m := by
  have hf : f < s.frames.size := lt_of_enclosing? hr.enclosing
  obtain ⟨inst, hinst, hk⟩ := hr.inherits
  obtain ⟨inst', hinst', hcls⟩ := h.instances i inst hinst
  exact ⟨h.hasMethod hr.method, (h.grows.enclosing f hf).trans hr.enclosing,
    (h.bound f hf _ not_plain_this).trans hr.receiver, inst', hinst', hcls ▸ h.inherits hk⟩

/-! ### Operations -/

theorem addFrame (s : Store) (fr : Frame) : Extends s (s.addFrame fr).2 where
  grows := .addFrame s fr
  bound f hf x _ := by rw [bound?_addFrame, if_neg (Nat.ne_of_lt hf)]
  classes _ _ hk := hk
  instances _ inst hi := ⟨inst, hi, rfl⟩

/-- A plain name gets a value. -/
theorem define (s : Store) (f : FrameId) (hx : Plain x) (v : Value) :
    Extends s (s.define f x v) where
  grows := (Grows.define s f x v).weaken fun _ h => h.elim
  bound g _ y hy := by
    rw [bound?_define, if_neg]
    rintro ⟨-, rfl, -⟩
    exact hy hx
  classes _ _ hk := hk
  instances _ inst hi := ⟨inst, hi, rfl⟩

theorem addFunction (s : Store) (c : Closure) : Extends s (s.addFunction c).2 where
  grows := .of_frames_eq rfl
  bound _ _ _ _ := rfl
  classes _ _ hk := hk
  instances _ inst hi := ⟨inst, hi, rfl⟩

theorem addClass (s : Store) (cls : Class) : Extends s (s.addClass cls).2 where
  grows := .of_frames_eq rfl
  bound _ _ _ _ := rfl
  classes k cls hk := by
    obtain ⟨hlt, -⟩ := Array.getElem?_eq_some_iff.mp hk
    exact (Array.getElem?_push_lt hlt).trans ((Array.getElem?_eq_getElem hlt).symm.trans hk)
  instances _ inst hi := ⟨inst, hi, rfl⟩

theorem addInstance (s : Store) (inst : Instance) : Extends s (s.addInstance inst).2 where
  grows := .of_frames_eq rfl
  bound _ _ _ _ := rfl
  classes _ _ hk := hk
  instances i inst hi := by
    obtain ⟨hlt, -⟩ := Array.getElem?_eq_some_iff.mp hi
    exact ⟨inst,
      (Array.getElem?_push_lt hlt).trans ((Array.getElem?_eq_getElem hlt).symm.trans hi), rfl⟩

theorem setField (s : Store) (i : InstanceId) (x : String) (v : Value) :
    Extends s (s.setField i x v) where
  grows := .of_frames_eq rfl
  bound _ _ _ _ := rfl
  classes _ _ hk := hk
  instances j inst hj := by
    rw [Store.setField, Array.getElem?_modify, hj]
    split
    · exact ⟨_, rfl, rfl⟩
    · exact ⟨inst, rfl, rfl⟩

end Extends

/-- A method that is bound has its receiver. -/
theorem receives_bind {inst : Instance} (hm : s.HasMethod k cls m)
    (hi : s.instances[i]? = some inst) (hk : s.Inherits inst.cls k) :
    (s.bind m i).2.Receives (s.bind m i).1.scope i k cls m where
  method := (Extends.addFrame s _).hasMethod hm
  enclosing := (enclosing?_addFrame s _ _).trans (if_pos rfl)
  receiver := (bound?_addFrame s _ _ _).trans ((if_pos rfl).trans (Table.find?_insert_self _ _ _))
  inherits := ⟨inst, hi, (Extends.addFrame s _).inherits hk⟩

end Lox.Store
