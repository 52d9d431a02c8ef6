import Mathlib.Order.Basic
import Lox.Proofs.Likeness.Store
import Lox.Proofs.Loops.Setting
/-!
# Stores with and without a frame

The frames of two runs are paired: what the one run does in a frame, the other does in the frame
that is paired with it. Each pair has a setting, which says whether the frame of the first run
stands inside an extra frame, one that the second run does not have. An extra frame holds nothing;
it is paired with the frame that stands for the one around it. All else is in the same order in both
stores, so values mean the same in both.
-/

namespace Lox

/-- Which frames of two runs are paired, and at which settings. -/
abbrev Pairing := Setting → FrameId → FrameId → Prop

/-- The pairing with a pair more. -/
def Pairing.add (P : Pairing) (p : Setting) (f f' : FrameId) : Pairing := fun q g g' =>
  P q g g' ∨ q = p ∧ g = f ∧ g' = f'

theorem Pairing.le_add (P : Pairing) (p : Setting) (f f' : FrameId) : P ≤ P.add p f f' :=
  fun _ _ _ => .inl

theorem Pairing.add_self (P : Pairing) (p : Setting) (f f' : FrameId) : P.add p f f' p f f' :=
  .inr ⟨rfl, rfl, rfl⟩

section

variable (D : Distances) (P : Pairing)

/-- Functions that can be called. -/
def Closure.Abreast (c c' : Closure) : Prop :=
  ∃ p, P p c.scope c'.scope ∧ c'.isInitializer = c.isInitializer ∧
    (c.isInitializer = true → p ≠ .inside 0) ∧ c.decl.Lifted D p c'.decl

/-- Methods that are not bound yet: a scope with `this` lies between their frames
and their bodies. -/
def Closure.Unbound (c c' : Closure) : Prop :=
  ∃ p, P p c.scope c'.scope ∧ c'.isInitializer = c.isInitializer ∧ c.decl.Lifted D p.deeper c'.decl

/-- What a name means on an instance. -/
inductive PropertyAbreast : Option Store.Property → Option Store.Property → Prop where
  | none : PropertyAbreast none none
  | field (v : Value) : PropertyAbreast (some (.field v)) (some (.field v))
  | method {c c' : Closure} : c.Unbound D P c' →
      PropertyAbreast (some (.method c)) (some (.method c'))

structure Class.Abreast (c c' : Class) : Prop where
  name : c'.name = c.name
  superclass : c'.superclass = c.superclass
  methods : ∀ x, Paired (Closure.Unbound D P) (c.methods.find? x) (c'.methods.find? x)

/-- Frames that hold the same, in frames that are paired. -/
structure Frame.Abreast (p : Setting) (fr fr' : Frame) : Prop where
  bindings : fr'.bindings = fr.bindings
  enclosing : Paired (P p.outward) fr.enclosing fr'.enclosing

/-- Two stores side by side. -/
structure Store.Abreast (s s' : Store) : Prop where
  frames {p f f'} : P p f f' → p ≠ .inside 0 →
    ∃ fr fr', s.frames[f]? = some fr ∧ s'.frames[f']? = some fr' ∧ fr.Abreast P p fr'
  extra {f f'} : P (.inside 0) f f' → ∃ g, s.frames[f]? = some ⟨.empty, some g⟩ ∧ P .outside g f'
  /-- A frame that holds something is paired with one other frame only. -/
  left {p q f f' g'} : P p f f' → p ≠ .inside 0 → P q f g' → q ≠ .inside 0 ∧ g' = f'
  right {p q f g f'} : P p f f' → p ≠ .inside 0 → P q g f' → q ≠ .inside 0 → g = f
  root : s.enclosing? globals = none
  globals : P .outside globals globals
  functions : Alike (Closure.Abreast D P) s.functions s'.functions
  classes : Alike (Class.Abreast D P) s.classes s'.classes
  natives : s'.natives = s.natives
  instances : s'.instances = s.instances

end

variable {D : Distances} {P Q : Pairing} {s s' : Store} {p q : Setting} {f f' g g' : FrameId}
  {c c' : Closure}

/-! ### Pairs are never lost -/

theorem Closure.Abreast.mono (h : c.Abreast D P c') (hq : P ≤ Q) : c.Abreast D Q c' := by
  obtain ⟨p, hp, h⟩ := h
  exact ⟨p, hq _ _ _ hp, h⟩

theorem Closure.Unbound.mono (h : c.Unbound D P c') (hq : P ≤ Q) : c.Unbound D Q c' := by
  obtain ⟨p, hp, h⟩ := h
  exact ⟨p, hq _ _ _ hp, h⟩

theorem Class.Abreast.mono {k k' : Class} (h : k.Abreast D P k') (hq : P ≤ Q) : k.Abreast D Q k' :=
  ⟨h.name, h.superclass, fun x => (h.methods x).imp fun _ _ he => he.mono hq⟩

theorem Frame.Abreast.mono {fr fr' : Frame} (h : fr.Abreast P p fr') (hq : P ≤ Q) :
    fr.Abreast Q p fr' :=
  ⟨h.bindings, h.enclosing.imp fun _ _ => hq _ _ _⟩

namespace Store.Abreast

/-! ### Variables -/

theorem lt (h : s.Abreast D P s') (hp : P p f f') : f < s.frames.size := by
  by_cases hp0 : p = .inside 0
  · subst hp0
    obtain ⟨g, hg, -⟩ := h.extra hp
    exact (Array.getElem?_eq_some_iff.mp hg).1
  · obtain ⟨fr, -, hf, -⟩ := h.frames hp hp0
    exact (Array.getElem?_eq_some_iff.mp hf).1

theorem lt' (h : s.Abreast D P s') (hp : P p f f') : f' < s'.frames.size := by
  have hreal : ∀ {q g}, P q g f' → q ≠ .inside 0 → f' < s'.frames.size := by
    intro q g hq hq0
    obtain ⟨-, fr', -, hf', -⟩ := h.frames hq hq0
    exact (Array.getElem?_eq_some_iff.mp hf').1
  by_cases hp0 : p = .inside 0
  · subst hp0
    obtain ⟨g, -, hg⟩ := h.extra hp
    exact hreal hg Setting.outside_ne
  · exact hreal hp hp0

theorem bound? (h : s.Abreast D P s') (hp : P p f f') (hp0 : p ≠ .inside 0) (x : String) :
    s'.bound? f' x = s.bound? f x := by
  obtain ⟨fr, fr', hf, hf', hb⟩ := h.frames hp hp0
  rw [Store.bound?, Store.bound?, hf, hf', Option.bind_some, Option.bind_some, hb.bindings]

theorem enclosing? (h : s.Abreast D P s') (hp : P p f f') (hp0 : p ≠ .inside 0) :
    Paired (P p.outward) (s.enclosing? f) (s'.enclosing? f') := by
  obtain ⟨fr, fr', hf, hf', hb⟩ := h.frames hp hp0
  rw [Store.enclosing?, Store.enclosing?, hf, hf', Option.bind_some, Option.bind_some]
  exact hb.enclosing

/-- Frames that hold something and are paired. -/
def Real (P : Pairing) (f f' : FrameId) : Prop := ∃ p, p ≠ .inside 0 ∧ P p f f'

/-- Along distances that belong together lie frames that are paired. -/
theorem ancestor? (h : s.Abreast D P s') (hp : P p f f') {d d' : Nat} (hd : p.Links d d') :
    Paired (Real P) (s.ancestor? d f) (s'.ancestor? d' f') := by
  have hnext : ∀ {p f f' d d'}, P p f f' → p ≠ .inside 0 →
      (∀ {g g'}, P p.outward g g' → Paired (Real P) (s.ancestor? d g) (s'.ancestor? d' g')) →
      Paired (Real P) (s.ancestor? (d + 1) f) (s'.ancestor? (d' + 1) f') := by
    intro p f f' d d' hp hp0 ih
    rw [Store.ancestor?, Store.ancestor?]
    obtain ⟨hf, hf'⟩ | ⟨g, g', hf, hf', hg⟩ := h.enclosing? hp hp0
    · rw [hf, hf']
      exact .inl ⟨rfl, rfl⟩
    · rw [hf, hf']
      exact ih hg
  have houtside : ∀ {f f'} d, P .outside f f' →
      Paired (Real P) (s.ancestor? d f) (s'.ancestor? d f') := by
    intro f f' d hp
    induction d generalizing f f' with
    | zero => exact .inr ⟨f, f', rfl, rfl, .outside, Setting.outside_ne, hp⟩
    | succ d ih => exact hnext hp Setting.outside_ne ih
  induction hd generalizing f f' with
  | outside d => exact houtside d hp
  | past d =>
    obtain ⟨g, hg, hgf⟩ := h.extra hp
    rw [Store.ancestor?, Store.enclosing?, hg]
    exact houtside d hgf
  | here k => exact .inr ⟨f, f', rfl, rfl, .inside (k + 1), Setting.deeper_ne (.inside k), hp⟩
  | step _ ih => exact hnext hp (Setting.deeper_ne (.inside _)) ih

theorem getAt? (h : s.Abreast D P s') (hp : P p f f') {d d' : Nat} (hd : p.Links d d')
    (x : String) : s'.getAt? f' d' x = s.getAt? f d x := by
  rw [Store.getAt?, Store.getAt?]
  obtain ⟨hf, hf'⟩ | ⟨g, g', hf, hf', q, hq0, hq⟩ := h.ancestor? hp hd
  · rw [hf, hf']
    rfl
  · rw [hf, hf']
    exact h.bound? hq hq0 x

theorem bindingAt? (h : s.Abreast D P s') (hp : P p f f') {d d' : Nat} (hd : p.Links d d')
    (x : String) : Paired (Real P) (s.bindingAt? f d x) (s'.bindingAt? f' d' x) := by
  rw [Store.bindingAt?, Store.bindingAt?]
  obtain ⟨hf, hf'⟩ | ⟨g, g', hf, hf', q, hq0, hq⟩ := h.ancestor? hp hd
  · rw [hf, hf']
    exact .inl ⟨rfl, rfl⟩
  · rw [hf, hf', Option.filter_some, Option.filter_some, h.bound? hq hq0]
    split
    · exact .inr ⟨g, g', rfl, rfl, q, hq0, hq⟩
    · exact .inl ⟨rfl, rfl⟩

theorem root' (h : s.Abreast D P s') : s'.enclosing? Lox.globals = none := by
  obtain ⟨-, h'⟩ | ⟨g, -, hg, -⟩ := h.enclosing? h.globals Setting.outside_ne
  · exact h'
  · rw [h.root] at hg
    cases hg

theorem nearest?_globals (h : s.Abreast D P s') (x : String) :
    Paired (Real P) (s.nearest? Lox.globals x) (s'.nearest? Lox.globals x) := by
  rw [Store.nearest?_globals h.root' (h.lt' h.globals),
    Store.nearest?_globals h.root (h.lt h.globals), h.bound? h.globals Setting.outside_ne]
  split
  · exact .inr ⟨_, _, rfl, rfl, .outside, Setting.outside_ne, h.globals⟩
  · exact .inl ⟨rfl, rfl⟩

theorem get?_globals (h : s.Abreast D P s') (x : String) :
    s'.get? Lox.globals x = s.get? Lox.globals x := by
  rw [Store.get?_globals h.root' (h.lt' h.globals), Store.get?_globals h.root (h.lt h.globals),
    h.bound? h.globals Setting.outside_ne]

/-! ### Classes and instances -/

theorem methodIn? (h : s.Abreast D P s') (x : String) (n : Nat) (k : ClassId) :
    Paired (Closure.Unbound D P) (s.methodIn? x n k) (s'.methodIn? x n k) := by
  induction n generalizing k with
  | zero => exact .inl ⟨rfl, rfl⟩
  | succ n ih =>
    unfold Store.methodIn?
    obtain ⟨hk, hk'⟩ | ⟨c, c', hk, hk', hc⟩ := h.classes.items k
    · rw [hk, hk']
      exact .inl ⟨rfl, rfl⟩
    · simp only [hk, hk', hc.superclass]
      obtain ⟨hm, hm'⟩ | ⟨m, m', hm, hm', hmm⟩ := hc.methods x
      · rw [hm, hm']
        cases c.superclass with
        | none => exact .inl ⟨rfl, rfl⟩
        | some p => exact ih p
      · rw [hm, hm']
        exact .inr ⟨m, m', rfl, rfl, hmm⟩

theorem method? (h : s.Abreast D P s') (k : ClassId) (x : String) :
    Paired (Closure.Unbound D P) (s.method? k x) (s'.method? k x) := by
  rw [Store.method?, Store.method?, h.classes.size]
  exact h.methodIn? x _ k

theorem property? (h : s.Abreast D P s') (i : InstanceId) (x : String) :
    PropertyAbreast D P (s.property? i x) (s'.property? i x) := by
  rw [Store.property?, Store.property?, h.instances]
  cases s.instances[i]? with
  | none => exact .none
  | some inst =>
    dsimp only
    cases inst.fields.find? x with
    | some v => exact .field v
    | none =>
      obtain ⟨hm, hm'⟩ | ⟨m, m', hm, hm', hmm⟩ := h.method? inst.cls x
      · rw [hm, hm']
        exact .none
      · rw [hm, hm']
        exact .method hmm

theorem arity? (h : s.Abreast D P s') (v : Value) : s'.arity? v = s.arity? v := by
  cases v with
  | function f =>
    simp only [Store.arity?]
    obtain ⟨hf, hf'⟩ | ⟨c, c', hf, hf', p, -, -, -, hc⟩ := h.functions.items f
    · rw [hf, hf']
    · rw [hf, hf', Option.map_some, Option.map_some, hc.parameters]
  | cls k =>
    simp only [Store.arity?, classArity]
    obtain ⟨hm, hm'⟩ | ⟨m, m', hm, hm', p, -, -, hmm⟩ := h.method? k initializerName
    · rw [hm, hm']
    · rw [hm, hm']
      exact congrArg (fun ps => some ps.length) hmm.parameters
  | native n => simp only [Store.arity?, h.natives]
  | nil | bool | number | string | object => rfl

theorem text (h : s.Abreast D P s') (v : Value) : s'.text v = s.text v := by
  have hname : ∀ k, s'.className k = s.className k := by
    intro k
    simp only [className]
    obtain ⟨hk, hk'⟩ | ⟨c, c', hk, hk', hc⟩ := h.classes.items k
    · rw [hk, hk']
    · rw [hk, hk', Option.map_some, Option.map_some, hc.name]
  cases v with
  | function f =>
    simp only [Store.text, functionName]
    obtain ⟨hf, hf'⟩ | ⟨c, c', hf, hf', p, -, -, -, hc⟩ := h.functions.items f
    · rw [hf, hf']
    · rw [hf, hf', Option.map_some, Option.map_some, hc.name]
  | cls k => exact hname k
  | object i => simp only [Store.text, instanceName, h.instances, hname]
  | nil | bool | number | string | native => rfl

/-! ### Operations -/

/-- What is known of functions and classes stays true when pairs are added. -/
theorem mono (h : s.Abreast D P s') (hq : P ≤ Q) :
    Alike (Closure.Abreast D Q) s.functions s'.functions ∧
    Alike (Class.Abreast D Q) s.classes s'.classes :=
  ⟨h.functions.imp fun _ _ hc => hc.mono hq, h.classes.imp fun _ _ hc => hc.mono hq⟩

/-- The same frame is added to both stores, in frames that are paired. -/
theorem addFrame (h : s.Abreast D P s') (hp : P p f f') (t : Table Value) :
    (s.addFrame ⟨t, some f⟩).2.Abreast D (P.add p.deeper s.frames.size s'.frames.size)
      (s'.addFrame ⟨t, some f'⟩).2 := by
  let P' := P.add p.deeper s.frames.size s'.frames.size
  have hle : P ≤ P' := P.le_add _ _ _
  have hold : ∀ {q g g'}, P q g g' → g ≠ s.frames.size ∧ g' ≠ s'.frames.size := fun hg =>
    ⟨Nat.ne_of_lt (h.lt hg), Nat.ne_of_lt (h.lt' hg)⟩
  obtain ⟨hfunctions, hclasses⟩ := h.mono hle
  refine ⟨?_, ?_, ?_, ?_, ?_, hle _ _ _ h.globals, hfunctions, hclasses, h.natives, h.instances⟩
  · rintro q g g' (hg | ⟨rfl, rfl, rfl⟩) hq0
    · obtain ⟨fr, fr', hfr, hfr', hb⟩ := h.frames hg hq0
      refine ⟨fr, fr', ?_, ?_, hb.mono hle⟩
      · rw [Store.addFrame, Array.getElem?_push, if_neg (hold hg).1, hfr]
      · rw [Store.addFrame, Array.getElem?_push, if_neg (hold hg).2, hfr']
    · refine ⟨_, _, Array.getElem?_push_size, Array.getElem?_push_size, rfl,
        .inr ⟨f, f', rfl, rfl, ?_⟩⟩
      rw [Setting.outward_deeper]
      exact hle _ _ _ hp
  · rintro g g' (hg | ⟨hq, -⟩)
    · obtain ⟨k, hk, hkg⟩ := h.extra hg
      refine ⟨k, ?_, hle _ _ _ hkg⟩
      rw [Store.addFrame, Array.getElem?_push, if_neg (hold hg).1, hk]
    · exact absurd hq.symm p.deeper_ne
  · rintro q r g g' k' (hg | ⟨rfl, rfl, rfl⟩) hq0 (hk | ⟨rfl, hk, rfl⟩)
    · exact h.left hg hq0 hk
    · exact absurd hk (hold hg).1
    · exact absurd rfl (hold hk).1
    · exact ⟨hq0, rfl⟩
  · rintro q r g k g' (hg | ⟨rfl, rfl, rfl⟩) hq0 (hk | ⟨rfl, rfl, hk⟩) hr0
    · exact h.right hg hq0 hk hr0
    · exact absurd hk (hold hg).2
    · exact absurd rfl (hold hk).2
    · rfl
  · rw [enclosing?_addFrame, if_neg (hold h.globals).1]
    exact h.root

/-- An extra frame is added to the first store. -/
theorem addExtra (h : s.Abreast D P s') (hp : P .outside f f') :
    (s.addScope (some f)).2.Abreast D (P.add (.inside 0) s.frames.size f') s' := by
  let P' := P.add (.inside 0) s.frames.size f'
  have hle : P ≤ P' := P.le_add _ _ _
  have hold : ∀ {q g g'}, P q g g' → g ≠ s.frames.size := fun hg => Nat.ne_of_lt (h.lt hg)
  obtain ⟨hfunctions, hclasses⟩ := h.mono hle
  have hframe : ∀ {q g g' fr}, P q g g' → s.frames[g]? = some fr →
      (s.addScope (some f)).2.frames[g]? = some fr := by
    intro q g g' fr hg hfr
    rw [Store.addScope, Store.addFrame, Array.getElem?_push, if_neg (hold hg), hfr]
  refine ⟨?_, ?_, ?_, ?_, ?_, hle _ _ _ h.globals, hfunctions, hclasses, h.natives, h.instances⟩
  · rintro q g g' (hg | ⟨rfl, -⟩) hq0
    · obtain ⟨fr, fr', hfr, hfr', hb⟩ := h.frames hg hq0
      exact ⟨fr, fr', hframe hg hfr, hfr', hb.mono hle⟩
    · exact absurd rfl hq0
  · rintro g g' (hg | ⟨-, rfl, rfl⟩)
    · obtain ⟨k, hk, hkg⟩ := h.extra hg
      exact ⟨k, hframe hg hk, hle _ _ _ hkg⟩
    · exact ⟨f, Array.getElem?_push_size, hle _ _ _ hp⟩
  · rintro q r g g' k' (hg | ⟨rfl, -⟩) hq0 (hk | ⟨rfl, hk, rfl⟩)
    · exact h.left hg hq0 hk
    · exact absurd hk (hold hg)
    · exact absurd rfl hq0
    · exact absurd rfl hq0
  · rintro q r g k g' (hg | ⟨rfl, -⟩) hq0 (hk | ⟨rfl, -⟩) hr0
    · exact h.right hg hq0 hk hr0
    · exact absurd rfl hr0
    · exact absurd rfl hq0
    · exact absurd rfl hq0
  · rw [Store.addScope, enclosing?_addFrame, if_neg (hold h.globals)]
    exact h.root

/-- A variable is bound in frames that are paired. -/
theorem define (h : s.Abreast D P s') (hp : P p f f') (hp0 : p ≠ .inside 0) (x : String)
    (v : Value) : (s.define f x v).Abreast D P (s'.define f' x v) := by
  refine ⟨?_, ?_, h.left, h.right, ?_, h.globals, h.functions, h.classes, h.natives, h.instances⟩
  · intro q g g' hg hq0
    obtain ⟨fr, fr', hfr, hfr', hb⟩ := h.frames hg hq0
    have hiff : f = g ↔ f' = g' := by
      refine ⟨?_, ?_⟩
      · rintro rfl
        exact (h.left hg hq0 hp).2
      · rintro rfl
        exact h.right hg hq0 hp hp0
    rw [Store.define, Store.define, Array.getElem?_modify, Array.getElem?_modify, hfr, hfr']
    by_cases hfg : f = g
    · rw [if_pos hfg, if_pos (hiff.mp hfg)]
      exact ⟨_, _, rfl, rfl, congrArg (·.insert x v) hb.bindings, hb.enclosing⟩
    · rw [if_neg hfg, if_neg fun hf => hfg (hiff.mpr hf)]
      exact ⟨fr, fr', rfl, rfl, hb⟩
  · intro g g' hg
    obtain ⟨k, hk, hkg⟩ := h.extra hg
    have hfg : f ≠ g := by
      rintro rfl
      exact (h.left hp hp0 hg).1 rfl
    refine ⟨k, ?_, hkg⟩
    rw [Store.define, Array.getElem?_modify, if_neg hfg, hk]
  · rw [enclosing?_define]
    exact h.root

theorem addFunction (h : s.Abreast D P s') (hc : c.Abreast D P c') :
    (s.addFunction c).2.Abreast D P (s'.addFunction c').2 :=
  ⟨h.frames, h.extra, h.left, h.right, h.root, h.globals, h.functions.push hc, h.classes,
    h.natives, h.instances⟩

theorem addClass (h : s.Abreast D P s') {k k' : Class} (hk : k.Abreast D P k') :
    (s.addClass k).2.Abreast D P (s'.addClass k').2 :=
  ⟨h.frames, h.extra, h.left, h.right, h.root, h.globals, h.functions, h.classes.push hk,
    h.natives, h.instances⟩

theorem addInstance (h : s.Abreast D P s') (i : Instance) :
    (s.addInstance i).2.Abreast D P (s'.addInstance i).2 := by
  refine ⟨h.frames, h.extra, h.left, h.right, h.root, h.globals, h.functions, h.classes,
    h.natives, ?_⟩
  rw [Store.addInstance, Store.addInstance, h.instances]

theorem setField (h : s.Abreast D P s') (i : InstanceId) (x : String) (v : Value) :
    (s.setField i x v).Abreast D P (s'.setField i x v) := by
  refine ⟨h.frames, h.extra, h.left, h.right, h.root, h.globals, h.functions, h.classes,
    h.natives, ?_⟩
  rw [Store.setField, Store.setField, h.instances]

/-- A method is bound to an instance, in a new frame that holds `this`. -/
theorem bind (h : s.Abreast D P s') (hc : c.Unbound D P c') (i : InstanceId) :
    ∃ Q, P ≤ Q ∧ (s.bind c i).2.Abreast D Q (s'.bind c' i).2 ∧
    (s.bind c i).1.Abreast D Q (s'.bind c' i).1 := by
  obtain ⟨p, hp, hi, hd⟩ := hc
  exact ⟨_, P.le_add _ _ _, h.addFrame hp _, p.deeper, P.add_self _ _ _, hi,
    fun _ => p.deeper_ne, hd⟩

theorem bindValue (h : s.Abreast D P s') (hc : c.Unbound D P c') (i : InstanceId) :
    ∃ Q, P ≤ Q ∧ (s.bindValue c i).2.Abreast D Q (s'.bindValue c' i).2 ∧
      (s'.bindValue c' i).1 = (s.bindValue c i).1 := by
  obtain ⟨Q, hle, hs, hb⟩ := h.bind hc i
  exact ⟨Q, hle, hs.addFunction hb, congrArg Value.function hs.functions.size⟩

end Store.Abreast

/-! ### Declarations -/

/-- The methods of a class close over frames that are paired. -/
theorem Run.methodTable_abreast (hp : P p f f') {ms ms' : List FunctionDecl}
    (h : FunctionDecl.LiftedAll D p.deeper ms ms') (x : String) :
    Paired (Closure.Unbound D P) ((Run.methodTable f ms).find? x)
      ((Run.methodTable f' ms').find? x) := by
  have hfold : ∀ ms ms' (t t' : Table Closure), FunctionDecl.LiftedAll D p.deeper ms ms' →
      t.Like (Closure.Unbound D P) t' →
      (ms.foldl (fun t d => t.insert d.name.name ⟨d, f, d.name.name = initializerName⟩) t).Like
        (Closure.Unbound D P)
        (ms'.foldl (fun t d => t.insert d.name.name ⟨d, f', d.name.name =
          initializerName⟩) t') := by
    intro ms
    induction ms with
    | nil =>
      intro ms' t t' hms ht
      cases hms
      exact ht
    | cons d ms ih =>
      intro ms' t t' hms ht
      cases hms with
      | cons hd hms =>
        rw [List.foldl_cons, List.foldl_cons, hd.name]
        exact ih _ _ _ hms (ht.insert _ ⟨p, hp, rfl, hd⟩)
  exact (hfold _ _ _ _ h .empty).find? x

end Lox
