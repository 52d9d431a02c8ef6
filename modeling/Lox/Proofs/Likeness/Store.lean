import Lox.Proofs.Likeness.Syntax
import Lox.Proofs.Running.Primitive
import Lox.Proofs.Store.Alike
/-!
# Stores and machines that are alike

Two stores are alike when their functions and methods have declarations that are alike and
nothing else differs. So values mean the same in both, and what one and the same operation does
to the two leaves them alike.
-/

namespace Lox

variable (L : Likeness)

structure Closure.Like (c c' : Closure) : Prop where
  decl : c.decl.Like L c'.decl
  scope : c'.scope = c.scope
  isInitializer : c'.isInitializer = c.isInitializer

/-- Tables with the same names in the same order. -/
def Table.Like {α : Type} (R : α → α → Prop) (t t' : Table α) : Prop :=
  List.Forall₂ (fun a b => b.1 = a.1 ∧ R a.2 b.2) t.entries t'.entries

structure Class.Like (c c' : Class) : Prop where
  name : c'.name = c.name
  superclass : c'.superclass = c.superclass
  methods : c.methods.Like (Closure.Like L) c'.methods

structure Store.Like (s s' : Store) : Prop where
  frames : s'.frames = s.frames
  functions : Alike (Closure.Like L) s.functions s'.functions
  classes : Alike (Class.Like L) s.classes s'.classes
  natives : s'.natives = s.natives
  instances : s'.instances = s.instances

structure Machine.Like (m m' : Machine) : Prop where
  store : m.store.Like L m'.store
  frame : m'.frame = m.frame
  distances : L.distances m.distances m'.distances
  depth : m'.depth = m.depth
  maxDepth : m'.maxDepth = m.maxDepth
  output : m'.output = m.output
  clock : m'.clock = m.clock
  readings : m'.readings = m.readings

variable {L}

/-! ### Tables -/

namespace Table.Like

variable {α : Type} {R : α → α → Prop} {t t' : Table α}

theorem empty : Table.empty.Like R Table.empty := .nil

theorem find? (h : t.Like R t') (x : String) : Paired R (t.find? x) (t'.find? x) := by
  obtain ⟨es⟩ := t
  obtain ⟨es'⟩ := t'
  change List.Forall₂ _ es es' at h
  change Paired R (findIn x es) (findIn x es')
  induction h with
  | nil => exact .inl ⟨rfl, rfl⟩
  | @cons e e' es es' he _ ih =>
    obtain ⟨y, a⟩ := e
    obtain ⟨y', a'⟩ := e'
    obtain ⟨rfl, ha⟩ := he
    simp only [findIn]
    split
    · exact .inr ⟨a, a', rfl, rfl, ha⟩
    · exact ih

theorem insert (h : t.Like R t') (x : String) {a a' : α} (ha : R a a') :
    (t.insert x a).Like R (t'.insert x a') := by
  obtain ⟨es⟩ := t
  obtain ⟨es'⟩ := t'
  change List.Forall₂ _ es es' at h
  change List.Forall₂ _ (insertIn x a es) (insertIn x a' es')
  induction h with
  | nil => exact .cons ⟨rfl, ha⟩ .nil
  | @cons e e' es es' he hes ih =>
    obtain ⟨y, b⟩ := e
    obtain ⟨y', b'⟩ := e'
    obtain ⟨rfl, hb⟩ := he
    simp only [insertIn]
    split
    · exact .cons ⟨rfl, ha⟩ hes
    · exact .cons ⟨rfl, hb⟩ ih

end Table.Like

theorem Run.methodTable_like (f : FrameId) {ms ms' : List FunctionDecl}
    (h : List.Forall₂ (FunctionDecl.Like L) ms ms') :
    (Run.methodTable f ms).Like (Closure.Like L) (Run.methodTable f ms') := by
  have hfold : ∀ t t' : Table Closure, t.Like (Closure.Like L) t' →
      (ms.foldl (fun t d => t.insert d.name.name ⟨d, f, d.name.name = initializerName⟩) t).Like
        (Closure.Like L)
        (ms'.foldl (fun t d => t.insert d.name.name ⟨d, f, d.name.name = initializerName⟩) t') := by
    induction h with
    | nil => exact fun t t' ht => ht
    | @cons d d' ms ms' hd _ ih =>
      intro t t' ht
      simp only [List.foldl_cons, hd.name.name]
      exact ih _ _ (ht.insert _ ⟨hd, rfl, rfl⟩)
  exact hfold _ _ .empty

theorem Run.bindParameters_like {xs xs' : List Ident} (h : List.Forall₂ L.Ident xs xs')
    (vs : List Value) : Run.bindParameters xs' vs = Run.bindParameters xs vs := by
  have hfold : ∀ (vs : List Value) (t : Table Value),
      (xs'.zip vs).foldl (fun t p => t.insert p.1.name p.2) t =
        (xs.zip vs).foldl (fun t p => t.insert p.1.name p.2) t := by
    induction h with
    | nil => exact fun _ _ => rfl
    | cons hx _ ih =>
      intro vs t
      cases vs with
      | nil => rfl
      | cons v vs => simp only [List.zip_cons_cons, List.foldl_cons, hx.name, ih]
  exact hfold vs .empty

/-! ### Frames -/

namespace Store

variable {s t : Store} (h : t.frames = s.frames)

include h

theorem bound?_congr (f : FrameId) (x : String) : t.bound? f x = s.bound? f x := by
  rw [bound?, bound?, h]

theorem enclosing?_congr (f : FrameId) : t.enclosing? f = s.enclosing? f := by
  rw [enclosing?, enclosing?, h]

theorem ancestor?_congr (d : Nat) (f : FrameId) : t.ancestor? d f = s.ancestor? d f := by
  induction d generalizing f with
  | zero => rfl
  | succ d ih => rw [ancestor?, ancestor?, enclosing?_congr h, funext ih]

theorem getAt?_congr (f : FrameId) (d : Nat) (x : String) : t.getAt? f d x = s.getAt? f d x := by
  rw [getAt?, getAt?, ancestor?_congr h, funext fun g => bound?_congr h g x]

theorem bindingAt?_congr (f : FrameId) (d : Nat) (x : String) :
    t.bindingAt? f d x = s.bindingAt? f d x := by
  rw [bindingAt?, bindingAt?, ancestor?_congr h,
    funext fun g => congrArg Option.isSome (bound?_congr h g x)]

theorem nearest?_congr (f : FrameId) (x : String) : t.nearest? f x = s.nearest? f x := by
  have hn : ∀ n g, t.nearestIn? x n g = s.nearestIn? x n g := by
    intro n
    induction n with
    | zero => exact fun _ => rfl
    | succ n ih =>
      intro g
      rw [nearestIn?, nearestIn?, bound?_congr h, enclosing?_congr h, funext ih]
  rw [nearest?, nearest?, h, hn]

theorem get?_congr (f : FrameId) (x : String) : t.get? f x = s.get? f x := by
  rw [get?, get?, nearest?_congr h, funext fun g => bound?_congr h g x]

end Store

/-! ### Stores -/

namespace Store.Like

variable {s s' : Store} {c c' m m' : Closure}

theorem methodIn? (h : s.Like L s') (x : String) (n : Nat) (k : ClassId) :
    Paired (Closure.Like L) (s.methodIn? x n k) (s'.methodIn? x n k) := by
  induction n generalizing k with
  | zero => exact .inl ⟨rfl, rfl⟩
  | succ n ih =>
    unfold Store.methodIn?
    obtain ⟨hk, hk'⟩ | ⟨c, c', hk, hk', hc⟩ := h.classes.items k
    · rw [hk, hk']
      exact .inl ⟨rfl, rfl⟩
    · simp only [hk, hk', hc.superclass]
      obtain ⟨hm, hm'⟩ | ⟨m, m', hm, hm', hmm⟩ := hc.methods.find? x
      · rw [hm, hm']
        cases c.superclass with
        | none => exact .inl ⟨rfl, rfl⟩
        | some p => exact ih p
      · rw [hm, hm']
        exact .inr ⟨m, m', rfl, rfl, hmm⟩

theorem method? (h : s.Like L s') (k : ClassId) (x : String) :
    Paired (Closure.Like L) (s.method? k x) (s'.method? k x) := by
  rw [Store.method?, Store.method?, h.classes.size]
  exact h.methodIn? x _ k

theorem arity? (h : s.Like L s') (v : Value) : s'.arity? v = s.arity? v := by
  cases v with
  | function f =>
    simp only [Store.arity?]
    obtain ⟨hf, hf'⟩ | ⟨c, c', hf, hf', hc⟩ := h.functions.items f
    · rw [hf, hf']
    · rw [hf, hf', Option.map_some, Option.map_some, hc.decl.parameters.length_eq]
  | cls k =>
    simp only [Store.arity?, classArity]
    obtain ⟨hm, hm'⟩ | ⟨m, m', hm, hm', hmm⟩ := h.method? k initializerName
    · rw [hm, hm']
    · rw [hm, hm']
      exact congrArg some hmm.decl.parameters.length_eq.symm
  | native n => simp only [Store.arity?, h.natives]
  | nil | bool | number | string | object => rfl

theorem text (h : s.Like L s') (v : Value) : s'.text v = s.text v := by
  have hname : ∀ k, s'.className k = s.className k := by
    intro k
    simp only [className]
    obtain ⟨hk, hk'⟩ | ⟨c, c', hk, hk', hc⟩ := h.classes.items k
    · rw [hk, hk']
    · rw [hk, hk', Option.map_some, Option.map_some, hc.name]
  cases v with
  | function f =>
    simp only [Store.text, functionName]
    obtain ⟨hf, hf'⟩ | ⟨c, c', hf, hf', hc⟩ := h.functions.items f
    · rw [hf, hf']
    · rw [hf, hf', Option.map_some, Option.map_some, hc.decl.name.name]
  | cls k => exact hname k
  | object i => simp only [Store.text, instanceName, h.instances, hname]
  | nil | bool | number | string | native => rfl

/-! ### Operations -/

theorem define (h : s.Like L s') (f : FrameId) (x : String) (v : Value) :
    (s.define f x v).Like L (s'.define f x v) where
  frames := by
    rw [Store.define, Store.define, h.frames]
  functions := h.functions
  classes := h.classes
  natives := h.natives
  instances := h.instances

theorem addFrame (h : s.Like L s') (fr : Frame) : (s.addFrame fr).2.Like L (s'.addFrame fr).2 where
  frames := by
    rw [Store.addFrame, Store.addFrame, h.frames]
  functions := h.functions
  classes := h.classes
  natives := h.natives
  instances := h.instances

theorem addFunction (h : s.Like L s') (hc : c.Like L c') :
    (s.addFunction c).2.Like L (s'.addFunction c').2 :=
  ⟨h.frames, h.functions.push hc, h.classes, h.natives, h.instances⟩

theorem addClass (h : s.Like L s') {k k' : Class} (hk : k.Like L k') :
    (s.addClass k).2.Like L (s'.addClass k').2 :=
  ⟨h.frames, h.functions, h.classes.push hk, h.natives, h.instances⟩

theorem addInstance (h : s.Like L s') (i : Instance) :
    (s.addInstance i).2.Like L (s'.addInstance i).2 where
  frames := h.frames
  functions := h.functions
  classes := h.classes
  natives := h.natives
  instances := by
    rw [Store.addInstance, Store.addInstance, h.instances]

theorem setField (h : s.Like L s') (i : InstanceId) (x : String) (v : Value) :
    (s.setField i x v).Like L (s'.setField i x v) where
  frames := h.frames
  functions := h.functions
  classes := h.classes
  natives := h.natives
  instances := by
    rw [Store.setField, Store.setField, h.instances]

/-- The frame that holds `this` is the same, and the bound methods are alike. -/
theorem bind (h : s.Like L s') (hm : m.Like L m') (i : InstanceId) :
    (s.bind m i).1.Like L (s'.bind m' i).1 ∧ (s.bind m i).2.Like L (s'.bind m' i).2 := by
  refine ⟨⟨hm.decl, congrArg Array.size h.frames, hm.isInitializer⟩, ?_⟩
  rw [Store.bind, Store.bind, hm.scope]
  exact h.addFrame _

theorem bindValue (h : s.Like L s') (hm : m.Like L m') (i : InstanceId) :
    (s'.bindValue m' i).1 = (s.bindValue m i).1 ∧
    (s.bindValue m i).2.Like L (s'.bindValue m' i).2 := by
  obtain ⟨hb, hs⟩ := h.bind hm i
  exact ⟨congrArg Value.function hs.functions.size, hs.addFunction hb⟩

end Store.Like

/-! ### A machine is like itself -/

theorem Alike.refl {α : Type} {R : α → α → Prop} {a : Array α} (h : ∀ x ∈ a, R x x) :
    Alike R a a where
  size := rfl
  items i := by
    cases ha : a[i]? with
    | none => exact .inl ⟨rfl, rfl⟩
    | some x => exact .inr ⟨x, x, rfl, rfl, h x (Array.mem_of_getElem? ha)⟩

/-- The declarations of the functions and methods in a store. -/
structure Store.Declares (s : Store) (P : FunctionDecl → Prop) : Prop where
  functions : ∀ c ∈ s.functions, P c.decl
  methods : ∀ k ∈ s.classes, ∀ e ∈ k.methods.entries, P e.2.decl

theorem Store.Declares.imp {s : Store} {P Q : FunctionDecl → Prop} (h : s.Declares P)
    (hq : ∀ d, P d → Q d) : s.Declares Q :=
  ⟨fun c hc => hq _ (h.functions c hc), fun k hk e he => hq _ (h.methods k hk e he)⟩

theorem Store.like_refl (hs : ∀ t, L.span t t) {s : Store}
    (h : s.Declares fun d => L.Fixes d.sights) : s.Like L s where
  frames := rfl
  functions := .refl fun c hc => ⟨c.decl.like_refl hs (h.functions c hc), rfl, rfl⟩
  classes := .refl fun k hk => ⟨rfl, rfl, List.forall₂_same.mpr fun e he =>
    ⟨rfl, e.2.decl.like_refl hs (h.methods k hk e he), rfl, rfl⟩⟩
  natives := rfl
  instances := rfl

theorem Machine.like_refl (hs : ∀ t, L.span t t) {m : Machine}
    (hd : L.distances m.distances m.distances) (h : m.store.Declares fun d => L.Fixes d.sights) :
    m.Like L m :=
  ⟨Store.like_refl hs h, rfl, hd, rfl, rfl, rfl, rfl, rfl⟩

theorem Machine.Like.withDistances {m m' : Machine} (h : m.Like L m') {d d' : Distances}
    (hd : L.distances d d') :
    Machine.Like L { m with distances := d } { m' with distances := d' } :=
  ⟨h.store, h.frame, hd, h.depth, h.maxDepth, h.output, h.clock, h.readings⟩

/-! ### Nothing differs -/

theorem Likeness.same_fixes (l : List Sight) : same.Fixes l := fun _ _ _ _ => rfl

theorem Machine.like_same (m : Machine) : m.Like .same m :=
  Machine.like_refl (fun _ => rfl) rfl ⟨fun _ _ => Likeness.same_fixes _,
    fun _ _ _ _ => Likeness.same_fixes _⟩

theorem Alike.eq {α : Type} {R : α → α → Prop} (hR : ∀ a b, R a b → b = a) {a b : Array α}
    (h : Alike R a b) : b = a := by
  apply Array.ext_getElem?
  intro i
  obtain ⟨ha, hb⟩ | ⟨x, y, ha, hb, hxy⟩ := h.items i
  · rw [ha, hb]
  · rw [ha, hb, hR x y hxy]

section

variable (hL : L.Exact)

include hL

theorem Closure.eq_of_like {c c' : Closure} (h : c.Like L c') : c' = c := by
  obtain ⟨d, f, b⟩ := c
  obtain ⟨d', f', b'⟩ := c'
  obtain ⟨hd, rfl, rfl⟩ := h
  rw [d.eq_of_like hL d' hd]

theorem Class.eq_of_like {c c' : Class} (h : c.Like L c') : c' = c := by
  obtain ⟨x, p, ⟨es⟩⟩ := c
  obtain ⟨x', p', ⟨es'⟩⟩ := c'
  obtain ⟨rfl, rfl, hm⟩ := h
  have hes : es' = es := by
    refine Likeness.eq_of_forall₂ ?_ hm
    rintro ⟨y, m⟩ ⟨y', m'⟩ ⟨rfl, hmm⟩
    have hm' : m' = m := Closure.eq_of_like hL hmm
    rw [hm']
  rw [hes]

theorem Store.eq_of_like {s s' : Store} (h : s.Like L s') : s' = s := by
  obtain ⟨hf, hfn, hc, hn, hi⟩ := h
  have hfn := hfn.eq fun _ _ => Closure.eq_of_like hL
  have hc := hc.eq fun _ _ => Class.eq_of_like hL
  cases s
  cases s'
  simp_all only

theorem Machine.eq_of_exact {m m' : Machine} (h : m.Like L m') :
    m' = { m with distances := m'.distances } := by
  obtain ⟨hs, hf, -, hde, hma, ho, hc, hr⟩ := h
  have hs := Store.eq_of_like hL hs
  cases m
  cases m'
  simp_all only

end

theorem Machine.eq_of_like {m m' : Machine} (h : m.Like .same m') : m' = m := by
  have hd : m.distances = m'.distances := h.distances
  rw [Machine.eq_of_exact Likeness.exact_same h, ← hd]

end Lox
