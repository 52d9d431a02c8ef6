import Lox.Proofs.Store.Receivers
/-!
# What can be reached

The things in a store refer to each other: a frame to the frame around it and to what its variables
hold, a function to the frame that it closes over, a class to its superclass and to the frames of
its methods, and an instance to its class and to what its fields hold. A region is all that could be
reached at some time, and all that has been made since. A store is confined to it as long as nothing
in the region refers to anything outside it, and what is outside is as it was.
-/

namespace Lox

/-- What has an address in a store. -/
inductive Thing where
  | frame (f : FrameId)
  | function (i : FunctionId)
  | cls (c : ClassId)
  | native (n : NativeId)
  | object (i : InstanceId)

/-- What a value is the address of. -/
def Value.thing? : Value → Option Thing
  | function i => some (.function i)
  | cls c => some (.cls c)
  | native n => some (.native n)
  | object i => some (.object i)
  | nil | bool _ | number _ | string _ => none

/-! ### References -/

namespace Table

def Refers (t : Table Value) (u : Thing) : Prop := ∃ x v, t.find? x = some v ∧ v.thing? = some u

theorem not_refers_empty (u : Thing) : ¬ (Table.empty : Table Value).Refers u := nofun

theorem Refers.of_insert {t : Table Value} {x : String} {v : Value} {u : Thing}
    (h : (t.insert x v).Refers u) : t.Refers u ∨ v.thing? = some u := by
  obtain ⟨y, w, hw, hu⟩ := h
  rw [find?_insert] at hw
  split at hw
  · obtain rfl := Option.some.inj hw
    exact .inr hu
  · exact .inl ⟨y, w, hw, hu⟩

end Table

/-- What a frame refers to. -/
inductive Frame.Refers (fr : Frame) : Thing → Prop where
  | enclosing {g : FrameId} : fr.enclosing = some g → Refers fr (.frame g)
  | bound {u : Thing} : fr.bindings.Refers u → Refers fr u

inductive Class.Refers (cls : Class) : Thing → Prop where
  | superclass {p : ClassId} : cls.superclass = some p → Refers cls (.cls p)
  | method {x : String} {m : Closure} : cls.methods.find? x = some m → Refers cls (.frame m.scope)

inductive Instance.Refers (inst : Instance) : Thing → Prop where
  | ofClass : Refers inst (.cls inst.cls)
  | field {u : Thing} : inst.fields.Refers u → Refers inst u

namespace Store

variable {s s' : Store} {f g : FrameId} {c : ClassId} {i : InstanceId} {t u : Thing} {x : String}
  {v : Value}

/-- Whether the store has something at the address. -/
def Has (s : Store) : Thing → Prop
  | .frame f => f < s.frames.size
  | .function i => i < s.functions.size
  | .cls c => c < s.classes.size
  | .native n => n < s.natives.size
  | .object i => i < s.instances.size

/-- Whether what is at one address refers to another. -/
inductive Refers (s : Store) : Thing → Thing → Prop where
  | frame {f fr u} : s.frames[f]? = some fr → fr.Refers u → Refers s (.frame f) u
  | function {i m} : s.functions[i]? = some m → Refers s (.function i) (.frame m.scope)
  | cls {c cls u} : s.classes[c]? = some cls → cls.Refers u → Refers s (.cls c) u
  | object {i inst u} : s.instances[i]? = some inst → inst.Refers u → Refers s (.object i) u

theorem Refers.has (h : s.Refers t u) : s.Has t := by
  cases h with
  | frame h | function h | cls h | object h => exact (Array.getElem?_eq_some_iff.mp h).1

/-- What can be reached from the roots `P`. -/
inductive Reachable (s : Store) (P : Thing → Prop) : Thing → Prop where
  | root {t : Thing} : P t → Reachable s P t
  | step {t u : Thing} : Reachable s P t → s.Refers t u → Reachable s P u

/-- Nothing of what `s` has is missing in `s'`. -/
def Later (s s' : Store) : Prop := ∀ t, s.Has t → s'.Has t

theorem Later.refl (s : Store) : s.Later s := fun _ h => h

theorem Later.trans {s'' : Store} (h : s.Later s') (h' : s'.Later s'') : s.Later s'' :=
  fun t ht => h' t (h t ht)

theorem Later.of_sizes (hf : s.frames.size ≤ s'.frames.size)
    (hm : s.functions.size ≤ s'.functions.size) (hc : s.classes.size ≤ s'.classes.size)
    (hn : s.natives.size ≤ s'.natives.size) (hi : s.instances.size ≤ s'.instances.size) :
    s.Later s' := by
  intro t ht
  cases t with
  | frame => exact Nat.lt_of_lt_of_le ht hf
  | function => exact Nat.lt_of_lt_of_le ht hm
  | cls => exact Nat.lt_of_lt_of_le ht hc
  | native => exact Nat.lt_of_lt_of_le ht hn
  | object => exact Nat.lt_of_lt_of_le ht hi

end Store

/-! ### Regions -/

/-- What could be reached at first, in a store which was the first. -/
structure Region where
  reached : Thing → Prop
  first : Store

namespace Region

variable {r : Region} {s s' : Store} {f g : FrameId} {c : ClassId} {i : InstanceId} {t u : Thing}
  {x : String} {v : Value} {m : Closure}

/-- Whether something could be reached at first, or has been made since. -/
def Holds (r : Region) (s : Store) (t : Thing) : Prop := r.reached t ∨ ¬ r.first.Has t ∧ s.Has t

def HoldsValue (r : Region) (s : Store) (v : Value) : Prop := ∀ t, v.thing? = some t → r.Holds s t

theorem Holds.later (h : r.Holds s t) (hl : s.Later s') : r.Holds s' t :=
  h.imp id fun h => ⟨h.1, hl t h.2⟩

theorem HoldsValue.later (h : r.HoldsValue s v) (hl : s.Later s') : r.HoldsValue s' v :=
  fun t ht => (h t ht).later hl

/-- A value without an address. -/
theorem HoldsValue.plain (h : v.thing? = none) : r.HoldsValue s v := fun t ht => by
  rw [h] at ht
  cases ht

/-- The store has come out of the first one, and all that was done to it was done in the region. -/
structure Confines (r : Region) (s : Store) : Prop where
  later : r.first.Later s
  closed : ∀ t u, r.Holds s t → s.Refers t u → r.Holds s u
  frames : ∀ f fr, r.first.frames[f]? = some fr → ¬ r.reached (.frame f) → s.frames[f]? = some fr
  instances : ∀ i inst, r.first.instances[i]? = some inst → ¬ r.reached (.object i) →
    s.instances[i]? = some inst

/-- All that can be reached from the roots `P` in the store `s`. -/
def ofRoots (s : Store) (P : Thing → Prop) : Region := ⟨s.Reachable P, s⟩

theorem holds_ofRoots {P : Thing → Prop} (h : P t) : (ofRoots s P).Holds s' t := .inl (.root h)

theorem confines_ofRoots (s : Store) (P : Thing → Prop) : (ofRoots s P).Confines s where
  later := .refl s
  closed t u ht hu := by
    obtain ht | ⟨hnot, hhas⟩ := ht
    · exact .inl (.step ht hu)
    · exact absurd hhas hnot
  frames f fr hf _ := hf
  instances i inst hi _ := hi

namespace Confines

/-- From what is in the region nothing else can be reached. -/
theorem reachable (h : r.Confines s) {P : Thing → Prop} (hP : ∀ t, P t → r.Holds s t)
    (ht : s.Reachable P t) : r.Holds s t := by
  induction ht with
  | root ht => exact hP _ ht
  | step _ hu ih => exact h.closed _ _ ih hu

/-! ### Reading -/

section

variable (h : r.Confines s)

include h

theorem bound? (hf : r.Holds s (.frame f)) (hv : s.bound? f x = some v) : r.HoldsValue s v := by
  obtain ⟨fr, hfr, hx⟩ := Option.bind_eq_some_iff.mp hv
  exact fun u hu => h.closed _ u hf (.frame hfr (.bound ⟨x, v, hx, hu⟩))

theorem enclosing? (hf : r.Holds s (.frame f)) (hg : s.enclosing? f = some g) :
    r.Holds s (.frame g) := by
  obtain ⟨fr, hfr, hg⟩ := Option.bind_eq_some_iff.mp hg
  exact h.closed _ _ hf (.frame hfr (.enclosing hg))

theorem ancestor? {d : Nat} (hf : r.Holds s (.frame f)) (hg : s.ancestor? d f = some g) :
    r.Holds s (.frame g) := by
  induction d generalizing f with
  | zero => exact Option.some.inj hg ▸ hf
  | succ d ih =>
    obtain ⟨e, he, hg⟩ := Option.bind_eq_some_iff.mp hg
    exact ih (h.enclosing? hf he) hg

theorem nearest? (hf : r.Holds s (.frame f)) (hg : s.nearest? f x = some g) :
    r.Holds s (.frame g) := by
  rw [Store.nearest?] at hg
  generalize s.frames.size = n at hg
  induction n generalizing f with
  | zero => cases hg
  | succ n ih =>
    rw [Store.nearestIn?] at hg
    split at hg
    · exact Option.some.inj hg ▸ hf
    · obtain ⟨e, he, hg⟩ := Option.bind_eq_some_iff.mp hg
      exact ih (h.enclosing? hf he) hg

theorem getAt? {d : Nat} (hf : r.Holds s (.frame f)) (hv : s.getAt? f d x = some v) :
    r.HoldsValue s v := by
  obtain ⟨g, hg, hv⟩ := Option.bind_eq_some_iff.mp hv
  exact h.bound? (h.ancestor? hf hg) hv

theorem get? (hf : r.Holds s (.frame f)) (hv : s.get? f x = some v) : r.HoldsValue s v := by
  obtain ⟨g, hg, hv⟩ := Option.bind_eq_some_iff.mp hv
  exact h.bound? (h.nearest? hf hg) hv

theorem bindingAt? {d : Nat} (hf : r.Holds s (.frame f)) (hg : s.bindingAt? f d x = some g) :
    r.Holds s (.frame g) :=
  h.ancestor? hf (Option.filter_eq_some_iff.mp hg).1

theorem method? (hc : r.Holds s (.cls c)) (hm : s.method? c x = some m) :
    r.Holds s (.frame m.scope) := by
  obtain ⟨k, cls, hk, hhas⟩ := Store.hasMethod_of_method? hm
  have hheld : r.Holds s (.cls k) := by
    clear hm hhas
    induction hk with
    | refl => exact hc
    | step hk hp _ ih => exact ih (h.closed _ _ hc (.cls hk (.superclass hp)))
  obtain ⟨y, hy⟩ := hhas.found
  exact h.closed _ _ hheld (.cls hhas.known (.method hy))

theorem function (hi : r.Holds s (.function i)) (hm : s.functions[i]? = some m) :
    r.Holds s (.frame m.scope) :=
  h.closed _ _ hi (.function hm)

theorem field (hi : r.Holds s (.object i)) (hv : s.property? i x = some (.field v)) :
    r.HoldsValue s v := by
  unfold Store.property? at hv
  split at hv
  · cases hv
  · rename_i inst hinst
    split at hv
    · rename_i hw
      cases hv
      exact fun u hu => h.closed _ u hi (.object hinst (.field ⟨x, v, hw, hu⟩))
    · obtain ⟨m, -, hm⟩ := Option.map_eq_some_iff.mp hv
      cases hm

theorem ownMethod (hi : r.Holds s (.object i)) (hm : s.property? i x = some (.method m)) :
    r.Holds s (.frame m.scope) := by
  unfold Store.property? at hm
  split at hm
  · cases hm
  · rename_i inst hinst
    split at hm
    · cases hm
    · obtain ⟨m', hm', heq⟩ := Option.map_eq_some_iff.mp hm
      cases heq
      exact h.method? (h.closed _ _ hi (.object hinst .ofClass)) hm'

/-! ### Changing -/

/-- What is new in the references of the store stays in the region, and so does
what is overwritten. -/
theorem change (hl : s.Later s') (hrefs : ∀ t u, s'.Refers t u → s.Refers t u ∨ r.Holds s u)
    (hframes : ∀ f fr, s.frames[f]? = some fr → ¬ r.Holds s (.frame f) → s'.frames[f]? = some fr)
    (hinstances : ∀ i inst, s.instances[i]? = some inst → ¬ r.Holds s (.object i) →
      s'.instances[i]? = some inst) : r.Confines s' where
  later := h.later.trans hl
  closed t u ht hu := by
    obtain hu | hu := hrefs t u hu
    · -- What refers to something in `s` is there, so it is not new in `s'`.
      have ht : r.Holds s t := ht.imp id fun ht => ⟨ht.1, hu.has⟩
      exact (h.closed t u ht hu).later hl
    · exact hu.later hl
  frames f fr hf hnot :=
    hframes f fr (h.frames f fr hf hnot) fun hheld =>
      hheld.elim hnot fun hnew => hnew.1 (Array.getElem?_eq_some_iff.mp hf).1
  instances i inst hi hnot :=
    hinstances i inst (h.instances i inst hi hnot) fun hheld =>
      hheld.elim hnot fun hnew => hnew.1 (Array.getElem?_eq_some_iff.mp hi).1

end

end Confines

end Region

/-! ### Operations -/

namespace Store

variable {s : Store} {f : FrameId} {i : InstanceId} {x : String} {v : Value} {t u : Thing}

theorem later_addFrame (s : Store) (fr : Frame) : s.Later (s.addFrame fr).2 :=
  .of_sizes (by simp) .refl .refl .refl .refl

theorem later_addFunction (s : Store) (m : Closure) : s.Later (s.addFunction m).2 :=
  .of_sizes .refl (by simp [addFunction]) .refl .refl .refl

theorem later_addClass (s : Store) (cls : Class) : s.Later (s.addClass cls).2 :=
  .of_sizes .refl .refl (by simp [addClass]) .refl .refl

theorem later_addInstance (s : Store) (inst : Instance) : s.Later (s.addInstance inst).2 :=
  .of_sizes .refl .refl .refl .refl (by simp [addInstance])

theorem later_define (s : Store) (f : FrameId) (x : String) (v : Value) :
    s.Later (s.define f x v) :=
  .of_sizes (by simp) .refl .refl .refl .refl

theorem later_setField (s : Store) (i : InstanceId) (x : String) (v : Value) :
    s.Later (s.setField i x v) :=
  .of_sizes .refl .refl .refl .refl (by simp [setField])

theorem later_bindValue (s : Store) (m : Closure) (i : InstanceId) : s.Later (s.bindValue m i).2 :=
  (later_addFrame s _).trans (later_addFunction _ _)

theorem refers_addFrame {fr : Frame} (h : (s.addFrame fr).2.Refers t u) :
    s.Refers t u ∨ fr.Refers u := by
  cases h with
  | frame hf hu =>
    rw [addFrame, Array.getElem?_push] at hf
    split at hf
    · exact .inr (Option.some.inj hf ▸ hu)
    · exact .inl (.frame hf hu)
  | function hm => exact .inl (.function hm)
  | cls hc hu => exact .inl (.cls hc hu)
  | object hi hu => exact .inl (.object hi hu)

private theorem refers_addFunction {m : Closure} (h : (s.addFunction m).2.Refers t u) :
    s.Refers t u ∨ u = .frame m.scope := by
  cases h with
  | function hm =>
    rw [addFunction, Array.getElem?_push] at hm
    split at hm
    · exact .inr (Option.some.inj hm ▸ rfl)
    · exact .inl (.function hm)
  | frame hf hu => exact .inl (.frame hf hu)
  | cls hc hu => exact .inl (.cls hc hu)
  | object hi hu => exact .inl (.object hi hu)

private theorem refers_addClass {cls : Class} (h : (s.addClass cls).2.Refers t u) :
    s.Refers t u ∨ cls.Refers u := by
  cases h with
  | cls hc hu =>
    rw [addClass, Array.getElem?_push] at hc
    split at hc
    · exact .inr (Option.some.inj hc ▸ hu)
    · exact .inl (.cls hc hu)
  | frame hf hu => exact .inl (.frame hf hu)
  | function hm => exact .inl (.function hm)
  | object hi hu => exact .inl (.object hi hu)

private theorem refers_addInstance {inst : Instance} (h : (s.addInstance inst).2.Refers t u) :
    s.Refers t u ∨ inst.Refers u := by
  cases h with
  | object hi hu =>
    rw [addInstance, Array.getElem?_push] at hi
    split at hi
    · exact .inr (Option.some.inj hi ▸ hu)
    · exact .inl (.object hi hu)
  | frame hf hu => exact .inl (.frame hf hu)
  | function hm => exact .inl (.function hm)
  | cls hc hu => exact .inl (.cls hc hu)

private theorem refers_define (h : (s.define f x v).Refers t u) :
    s.Refers t u ∨ v.thing? = some u := by
  cases h with
  | @frame g fr u hg hu =>
    rw [define, Array.getElem?_modify] at hg
    split at hg
    · obtain ⟨fr', hg', rfl⟩ := Option.map_eq_some_iff.mp hg
      cases hu with
      | enclosing he => exact .inl (.frame hg' (.enclosing he))
      | bound hu => exact hu.of_insert.imp_left fun hu => .frame hg' (.bound hu)
    · exact .inl (.frame hg hu)
  | function hm => exact .inl (.function hm)
  | cls hc hu => exact .inl (.cls hc hu)
  | object hi hu => exact .inl (.object hi hu)

private theorem refers_setField (h : (s.setField i x v).Refers t u) :
    s.Refers t u ∨ v.thing? = some u := by
  cases h with
  | @object j inst u hj hu =>
    rw [setField, Array.getElem?_modify] at hj
    split at hj
    · obtain ⟨inst', hj', rfl⟩ := Option.map_eq_some_iff.mp hj
      cases hu with
      | ofClass => exact .inl (.object hj' .ofClass)
      | field hu => exact hu.of_insert.imp_left fun hu => .object hj' (.field hu)
    · exact .inl (.object hj hu)
  | frame hf hu => exact .inl (.frame hf hu)
  | function hm => exact .inl (.function hm)
  | cls hc hu => exact .inl (.cls hc hu)

end Store

/-- What stands in an array stands there after something is put at its end. -/
theorem getElem?_push_of_some {α : Type} {as : Array α} {n : Nat} {a : α} (h : as[n]? = some a)
    (b : α) : (as.push b)[n]? = some a := by
  obtain ⟨hlt, -⟩ := Array.getElem?_eq_some_iff.mp h
  rwa [Array.getElem?_push_lt hlt, ← Array.getElem?_eq_getElem hlt]

namespace Region.Confines

variable {r : Region} {s : Store} {f : FrameId} {i : InstanceId} {x : String} {v : Value}

section

variable (h : r.Confines s)

include h

/-- What is made is in the region. -/
theorem holds_new {s' : Store} {t : Thing} (ht : ¬ s.Has t) (ht' : s'.Has t) : r.Holds s' t :=
  .inr ⟨fun hfirst => ht (h.later t hfirst), ht'⟩

/-- A frame inside another, whose variables hold what is in the region. -/
theorem addFrame {bindings : Table Value} (hf : r.Holds s (.frame f))
    (hb : ∀ u, bindings.Refers u → r.Holds s u) : r.Confines (s.addFrame ⟨bindings, some f⟩).2 := by
  refine h.change (s.later_addFrame _)
    (fun t u hu => (Store.refers_addFrame hu).imp_right fun hu => ?_)
    (fun _ _ hf _ => getElem?_push_of_some hf _) fun _ _ hi _ => hi
  cases hu with
  | enclosing he => exact Option.some.inj he ▸ hf
  | bound hu => exact hb u hu

theorem holds_addFrame (fr : Frame) : r.Holds (s.addFrame fr).2 (.frame s.frames.size) :=
  h.holds_new (Nat.lt_irrefl _)
    (Nat.lt_of_lt_of_eq (Nat.lt_succ_self _) (Store.size_addFrame s fr).symm)

theorem addFunction {m : Closure} (hm : r.Holds s (.frame m.scope)) :
    r.Confines (s.addFunction m).2 :=
  h.change (s.later_addFunction m)
    (fun _ u hu => (Store.refers_addFunction hu).imp_right fun (hu : u = _) => hu ▸ hm)
      (fun _ _ hf _ => hf)
    fun _ _ hi _ => hi

theorem holds_addFunction (m : Closure) : r.HoldsValue (s.addFunction m).2 (s.addFunction m).1 := by
  rintro t ⟨⟩
  exact h.holds_new (Nat.lt_irrefl _)
    (Nat.lt_of_lt_of_eq (Nat.lt_succ_self _) (Array.size_push _).symm)

theorem addClass {cls : Class} (hc : ∀ u, cls.Refers u → r.Holds s u) :
    r.Confines (s.addClass cls).2 :=
  h.change (s.later_addClass cls) (fun _ u hu => (Store.refers_addClass hu).imp_right (hc u))
    (fun _ _ hf _ => hf) fun _ _ hi _ => hi

theorem holds_addClass (cls : Class) : r.HoldsValue (s.addClass cls).2 (s.addClass cls).1 := by
  rintro t ⟨⟩
  exact h.holds_new (Nat.lt_irrefl _)
    (Nat.lt_of_lt_of_eq (Nat.lt_succ_self _) (Array.size_push _).symm)

theorem addInstance {inst : Instance} (hi : ∀ u, inst.Refers u → r.Holds s u) :
    r.Confines (s.addInstance inst).2 :=
  h.change (s.later_addInstance inst) (fun _ u hu => (Store.refers_addInstance hu).imp_right (hi u))
    (fun _ _ hf _ => hf) fun _ _ hi _ => getElem?_push_of_some hi inst

theorem holds_addInstance (inst : Instance) :
    r.Holds (s.addInstance inst).2 (.object s.instances.size) :=
  h.holds_new (Nat.lt_irrefl _) (Nat.lt_of_lt_of_eq (Nat.lt_succ_self _) (Array.size_push _).symm)

/-- A method gets bound to an instance. -/
theorem bind {m : Closure} (hm : r.Holds s (.frame m.scope)) (hi : r.Holds s (.object i)) :
    r.Confines (s.bind m i).2 ∧ r.Holds (s.bind m i).2 (.frame (s.bind m i).1.scope) := by
  refine ⟨h.addFrame hm fun u hu => ?_, h.holds_addFrame _⟩
  obtain hu | hu := hu.of_insert
  · exact absurd hu (Table.not_refers_empty u)
  · exact Option.some.inj hu ▸ hi

theorem bindValue {m : Closure} (hm : r.Holds s (.frame m.scope)) (hi : r.Holds s (.object i)) :
    r.Confines (s.bindValue m i).2 ∧ r.HoldsValue (s.bindValue m i).2 (s.bindValue m i).1 := by
  obtain ⟨hs, hf⟩ := h.bind hm hi
  exact ⟨hs.addFunction hf, hs.holds_addFunction _⟩

theorem define (hf : r.Holds s (.frame f)) (hv : r.HoldsValue s v) (x : String) :
    r.Confines (s.define f x v) :=
  h.change (s.later_define f x v) (fun _ u hu => (Store.refers_define hu).imp_right (hv u))
    (fun g fr hg hnot => by
      have hne : f ≠ g := fun hfg => hnot (hfg ▸ hf)
      rwa [Store.define, Array.getElem?_modify, if_neg hne])
    fun _ _ hi _ => hi

theorem setField (hi : r.Holds s (.object i)) (hv : r.HoldsValue s v) (x : String) :
    r.Confines (s.setField i x v) :=
  h.change (s.later_setField i x v) (fun _ u hu => (Store.refers_setField hu).imp_right (hv u))
    (fun _ _ hf _ => hf) fun j inst hj hnot => by
      have hne : i ≠ j := fun hij => hnot (hij ▸ hi)
      rwa [Store.setField, Array.getElem?_modify, if_neg hne]

end

end Region.Confines

end Lox
