import Lox.Proofs.Lexical.Naming
import Lox.Proofs.Running.Frames
import Lox.Proofs.Store.Alike
/-!
# Stores and worlds

A store is linked to a world by a naming when every variable in a frame has the value of its
cell, no two variables have one cell, and functions, classes and instances are the same one by
one. A function sees, from the frame that it was declared in, the cells that it can see in the
world. Whatever the evaluator does to the store, the lexical interpreter does to the world, so
that they stay linked.
-/

namespace Lox

open Lexical

/-! ### Functions and classes -/

section Functions

variable {V : Visit → Prop} {κ ν : Naming} {s t : Store} {c : Closure} {r : Function}
  {inner : List Scope → List Scope} {K : FrameId → Prop}

/-- A function of the store and one of the world that come from one declaration, visited with the
visits in `V`, and see the same variables. -/
structure Closure.Matches (V : Visit → Prop) (κ : Naming) (s : Store)
    (inner : List Scope → List Scope) (c : Closure) (r : Function) : Prop where
  decl : r.decl = c.decl
  isInitializer : r.isInitializer = c.isInitializer
  visited : ∃ w kind cs, w.scopes = inner cs ∧ s.Covers c.scope cs ∧ κ.Sees s c.scope cs r.locals ∧
    ∀ v ∈ c.decl.visits w kind, V v

/-- Functions that can be called. Initializers can give back the same instance. -/
structure Closure.Linked (V : Visit → Prop) (κ : Naming) (s : Store) (c : Closure) (r : Function) :
    Prop extends c.Matches V κ s id r where
  receiver : c.isInitializer = true →
    ∃ e, κ c.scope "this" = some e ∧ r.locals.find? "this" = some e

/-- Methods that are not bound yet. -/
abbrev Closure.MethodLinked (V : Visit → Prop) (κ : Naming) (s : Store) (c : Closure)
    (r : Function) : Prop :=
  c.Matches V κ s (Table.empty.insert "this" true :: ·) r

structure Class.Linked (V : Visit → Prop) (κ : Naming) (s : Store) (c : Class) (r : Lexical.Class) :
    Prop where
  name : r.name = c.name
  superclass : r.superclass = c.superclass
  methods : ∀ x, Paired
    (fun m d => Closure.MethodLinked V κ s m ⟨d, r.locals, d.name.name = initializerName⟩)
    (c.methods.find? x) (r.methods.find? x)

theorem Closure.Matches.mono (h : c.Matches V κ s inner r) (hκ : ν.Extends κ)
    (hg : Store.Grows K s t) : c.Matches V ν t inner r := by
  obtain ⟨w, kind, cs, hw, hc, hs, hv⟩ := h.visited
  exact ⟨h.decl, h.isInitializer, w, kind, cs, hw, hc.mono hg, hs.mono hκ hg, hv⟩

theorem Closure.Linked.mono (h : c.Linked V κ s r) (hκ : ν.Extends κ) (hg : Store.Grows K s t) :
    c.Linked V ν t r := by
  refine ⟨h.toMatches.mono hκ hg, fun hi => ?_⟩
  obtain ⟨e, he, hr⟩ := h.receiver hi
  exact ⟨e, hκ _ _ _ he, hr⟩

theorem Class.Linked.mono {c : Class} {r : Lexical.Class} (h : c.Linked V κ s r) (hκ : ν.Extends κ)
    (hg : Store.Grows K s t) : c.Linked V ν t r where
  name := h.name
  superclass := h.superclass
  methods x := (h.methods x).imp fun _ _ hm => hm.mono hκ hg

end Functions

/-! ### Stores -/

structure Store.Linked (V : Visit → Prop) (κ : Naming) (s : Store) (w : World) : Prop where
  globals : ∀ x, s.bound? globals x = w.globals.find? x
  inner : ∀ x, κ Lox.globals x = none
  cells : ∀ f x c, κ f x = some c → c < w.cells.size ∧ s.bound? f x = w.cells[c]?
  injective : ∀ f x g y c, κ f x = some c → κ g y = some c → f = g ∧ x = y
  functions : Alike (Closure.Linked V κ s) s.functions w.functions
  classes : Alike (Class.Linked V κ s) s.classes w.classes
  natives : w.natives = s.natives
  instances : w.instances = s.instances

namespace Store.Linked

variable {V : Visit → Prop} {κ ν : Naming} {s : Store} {w : World} {f : FrameId} {x : String}
  {v : Value} {cs : List Scope} {l : Locals}

/-- Frames and cells that change leave functions and classes as they are. -/
theorem of_grows (h : s.Linked V κ w) (hκ : ν.Extends κ) {frames : Array Frame} {K : FrameId → Prop}
    (hg : Grows K s { s with frames := frames }) {cells : Array Value} {globals : Table Value}
    (hgl : ∀ x, Store.bound? { s with frames := frames } Lox.globals x = globals.find? x)
    (hl : ∀ x, ν Lox.globals x = none)
    (hc : ∀ f x c, ν f x = some c →
      c < cells.size ∧ Store.bound? { s with frames := frames } f x = cells[c]?)
    (hi : ∀ f x g y c, ν f x = some c → ν g y = some c → f = g ∧ x = y) :
    Store.Linked V ν { s with frames := frames } { w with cells := cells, globals := globals } where
  globals := hgl
  inner := hl
  cells := hc
  injective := hi
  functions := h.functions.imp fun _ _ hr => hr.mono hκ hg
  classes := h.classes.imp fun _ _ hr => hr.mono hκ hg
  natives := h.natives
  instances := h.instances

theorem isSome_bound? (h : s.Linked V κ w) {c : Cell} (hc : κ f x = some c) :
    (s.bound? f x).isSome := by
  obtain ⟨hlt, hb⟩ := h.cells f x c hc
  rw [hb, Array.getElem?_eq_getElem hlt]
  rfl

/-- A name that is not bound is not named. -/
theorem eq_none (h : s.Linked V κ w) (hx : s.bound? f x = none) : κ f x = none := by
  cases hc : κ f x with
  | none => rfl
  | some c =>
    have hsome := h.isSome_bound? hc
    rw [hx] at hsome
    cases hsome

/-- A frame without variables. -/
theorem addScope (h : s.Linked V κ w) (hs : Lox.globals < s.frames.size) (e : Option FrameId) :
    (s.addScope e).2.Linked V κ w := by
  refine h.of_grows (.refl κ) (.addFrame (K := fun _ => True) s _) (fun x => ?_) h.inner
    (fun f x c hc => ?_) h.injective
  · rw [← h.globals x]
    exact (bound?_addFrame s _ _ x).trans (if_neg (Nat.ne_of_lt hs))
  · have hlt := lt_of_bound? (h.isSome_bound? hc)
    rw [← (h.cells f x c hc).2]
    exact ⟨(h.cells f x c hc).1, (bound?_addFrame s _ f x).trans (if_neg (Nat.ne_of_lt hlt))⟩

/-- A new variable is a new cell. -/
theorem declare (h : s.Linked V κ w) (hf : f ≠ Lox.globals) (hs : f < s.frames.size)
    (hx : s.bound? f x = none) (v : Value) :
    (s.define f x v).Linked V (κ.add f x w.cells.size) (w.fresh v).2 := by
  refine h.of_grows (Naming.extends_add (h.eq_none hx) _) (.define s f x v)
    (fun y => ?_) (fun y => ?_)
    (fun g y c hc => ?_) (fun g y g' y' c hc hc' => ?_)
  · rw [← h.globals y]
    exact (bound?_define s f x v _ y).trans (if_neg fun hh => hf hh.1)
  · rw [Naming.add, if_neg fun hh => hf hh.1, h.inner]
  · refine (?_ : c < (w.cells.push v).size ∧ (s.define f x v).bound? g y = (w.cells.push v)[c]?)
    rw [bound?_define, Array.size_push, Array.getElem?_push]
    rw [Naming.add] at hc
    split at hc
    · rename_i hfg
      obtain rfl := Option.some.inj hc
      obtain ⟨rfl, rfl⟩ := hfg
      rw [if_pos ⟨rfl, rfl, hs⟩, if_pos rfl]
      exact ⟨Nat.lt_succ_self _, rfl⟩
    · rename_i hfg
      obtain ⟨hlt, hb⟩ := h.cells g y c hc
      rw [if_neg fun hh => hfg ⟨hh.1, hh.2.1⟩, if_neg (Nat.ne_of_lt hlt)]
      exact ⟨Nat.lt_succ_of_lt hlt, hb⟩
  · have hnew : ∀ g y, κ g y ≠ some w.cells.size := fun g y hg =>
      Nat.lt_irrefl _ (h.cells g y _ hg).1
    rw [Naming.add] at hc hc'
    split at hc
    · rename_i hfg
      obtain rfl := Option.some.inj hc
      split at hc'
      · rename_i hfg'
        exact ⟨hfg.1.symm.trans hfg'.1, hfg.2.symm.trans hfg'.2⟩
      · exact absurd hc' (hnew _ _)
    · split at hc'
      · obtain rfl := Option.some.inj hc'
        exact absurd hc (hnew _ _)
      · exact h.injective g y g' y' c hc hc'

/-- A variable that has a cell gets a new value. -/
theorem setCell (h : s.Linked V κ w) {c : Cell} (hc : κ f x = some c) (v : Value) :
    (s.define f x v).Linked V κ { w with cells := w.cells.setIfInBounds c v } := by
  have hbound := h.isSome_bound? hc
  refine h.of_grows (.refl κ) (.redefine (K := fun _ => True) v hbound) (fun y => ?_) h.inner
    (fun g y d hd => ?_) h.injective
  · rw [← h.globals y]
    refine (bound?_define s f x v _ y).trans (if_neg fun hh => ?_)
    rw [hh.1, h.inner] at hc
    cases hc
  · obtain ⟨hlt, hb⟩ := h.cells g y d hd
    refine (?_ : d < (w.cells.setIfInBounds c v).size ∧
      (s.define f x v).bound? g y = (w.cells.setIfInBounds c v)[d]?)
    rw [bound?_define, Array.size_setIfInBounds, Array.getElem?_setIfInBounds]
    by_cases hcd : c = d
    · subst hcd
      obtain ⟨rfl, rfl⟩ := h.injective f x g y c hc hd
      rw [if_pos ⟨rfl, rfl, lt_of_bound? hbound⟩, if_pos rfl, if_pos hlt]
      exact ⟨hlt, rfl⟩
    · rw [if_neg hcd, if_neg]
      · exact ⟨hlt, hb⟩
      · rintro ⟨rfl, rfl, -⟩
        exact hcd (Option.some.inj (hc.symm.trans hd))

/-- A global variable gets a value. -/
theorem setGlobal (h : s.Linked V κ w) (hs : Lox.globals < s.frames.size) (x : String) (v : Value) :
    (s.define Lox.globals x v).Linked V κ (w.setGlobal x v) := by
  refine h.of_grows (.refl κ) (.define s _ x v) (fun y => ?_) h.inner
    (fun g y d hd => ?_) h.injective
  · rw [Table.find?_insert, ← h.globals y]
    refine (bound?_define s _ x v _ y).trans ?_
    by_cases hxy : x = y
    · rw [if_pos ⟨rfl, hxy, hs⟩, if_pos hxy]
    · rw [if_neg fun hh => hxy hh.2.1, if_neg hxy]
  · obtain ⟨hlt, hb⟩ := h.cells g y d hd
    rw [← hb]
    refine ⟨hlt, (bound?_define s _ x v g y).trans (if_neg fun hh => ?_)⟩
    rw [← hh.1, h.inner] at hd
    cases hd

/-! ### Functions, classes and instances -/

theorem addFunction (h : s.Linked V κ w) {c : Closure} {r : Function} (hr : c.Linked V κ s r) :
    (s.addFunction c).2.Linked V κ (w.addFunction r).2 := by
  have hg : Grows (fun _ => True) s (s.addFunction c).2 := .of_frames_eq rfl
  exact {
    globals := h.globals
    inner := h.inner
    cells := h.cells
    injective := h.injective
    functions := (h.functions.push hr).imp fun _ _ hr => hr.mono (.refl κ) hg
    classes := h.classes.imp fun _ _ hr => hr.mono (.refl κ) hg
    natives := h.natives
    instances := h.instances }

theorem addFunction_fst (h : s.Linked V κ w) (c : Closure) (r : Function) :
    (w.addFunction r).1 = (s.addFunction c).1 := congrArg Value.function h.functions.size

theorem addClass (h : s.Linked V κ w) {c : Class} {r : Lexical.Class} (hr : c.Linked V κ s r) :
    (s.addClass c).2.Linked V κ (w.addClass r).2 := by
  have hg : Grows (fun _ => True) s (s.addClass c).2 := .of_frames_eq rfl
  exact {
    globals := h.globals
    inner := h.inner
    cells := h.cells
    injective := h.injective
    functions := h.functions.imp fun _ _ hr => hr.mono (.refl κ) hg
    classes := (h.classes.push hr).imp fun _ _ hr => hr.mono (.refl κ) hg
    natives := h.natives
    instances := h.instances }

theorem addClass_fst (h : s.Linked V κ w) (c : Class) (r : Lexical.Class) :
    (w.addClass r).1 = (s.addClass c).1 := congrArg Value.cls h.classes.size

/-- Instances are the same in both. -/
theorem of_instances (h : s.Linked V κ w) (is : Array Instance) :
    Store.Linked V κ { s with instances := is } { w with instances := is } := by
  have hg : Grows (fun _ => True) s { s with instances := is } := .of_frames_eq rfl
  exact {
    globals := h.globals
    inner := h.inner
    cells := h.cells
    injective := h.injective
    functions := h.functions.imp fun _ _ hr => hr.mono (.refl κ) hg
    classes := h.classes.imp fun _ _ hr => hr.mono (.refl κ) hg
    natives := h.natives
    instances := rfl }

theorem addInstance (h : s.Linked V κ w) (i : Instance) :
    (w.addInstance i).1 = (s.addInstance i).1 ∧
    (s.addInstance i).2.Linked V κ (w.addInstance i).2 := by
  have hi := h.of_instances (s.instances.push i)
  have hw : (w.addInstance i).2 = { w with instances := s.instances.push i } := by
    rw [World.addInstance, h.instances]
  rw [hw]
  exact ⟨congrArg Array.size h.instances, hi⟩

theorem setField (h : s.Linked V κ w) (i : InstanceId) (x : String) (v : Value) :
    (s.setField i x v).Linked V κ (w.setField i x v) := by
  have hi := h.of_instances (s.setField i x v).instances
  have hw : w.setField i x v = { w with instances := (s.setField i x v).instances } := by
    rw [World.setField, h.instances]
    rfl
  rw [hw]
  exact hi

theorem methodIn? (h : s.Linked V κ w) (x : String) (n : Nat) (c : ClassId) :
    Paired (Closure.MethodLinked V κ s) (s.methodIn? x n c) (w.methodIn? x n c) := by
  induction n generalizing c with
  | zero => exact .inl ⟨rfl, rfl⟩
  | succ n ih =>
    rw [Store.methodIn?, World.methodIn?]
    obtain ⟨hs, hw⟩ | ⟨cls, r, hs, hw, hr⟩ := h.classes.items c <;> rw [hs, hw]
    · exact .inl ⟨rfl, rfl⟩
    · dsimp only
      obtain ⟨hs, hw⟩ | ⟨m, d, hs, hw, hm⟩ := hr.methods x <;> rw [hs, hw]
      · dsimp only
        rw [hr.superclass]
        cases cls.superclass with
        | none => exact .inl ⟨rfl, rfl⟩
        | some p => exact ih p
      · exact .inr ⟨m, _, rfl, rfl, hm⟩

theorem method? (h : s.Linked V κ w) (c : ClassId) (x : String) :
    Paired (Closure.MethodLinked V κ s) (s.method? c x) (w.method? c x) := by
  rw [Store.method?, World.method?, h.classes.size]
  exact h.methodIn? x _ c

theorem arity? (h : s.Linked V κ w) (v : Value) : w.arity? v = s.arity? v := by
  cases v with
  | function f =>
    rw [World.arity?, Store.arity?]
    obtain ⟨hs, hw⟩ | ⟨c, r, hs, hw, hr⟩ := h.functions.items f <;> rw [hs, hw]
    · rfl
    · exact congrArg (fun d : FunctionDecl => some d.parameters.length) hr.decl
  | cls c =>
    rw [World.arity?, Store.arity?, World.classArity, Store.classArity]
    obtain ⟨hs, hw⟩ | ⟨m, r, hs, hw, hr⟩ := h.method? c initializerName
    · rw [hs, hw]
    · rw [hs, hw]
      exact congrArg (fun d : FunctionDecl => some d.parameters.length) hr.decl
  | native n => rw [World.arity?, Store.arity?, h.natives]
  | nil | bool | number | string | object => rfl

theorem className (h : s.Linked V κ w) (c : ClassId) : w.className c = s.className c := by
  rw [World.className, Store.className]
  obtain ⟨hs, hw⟩ | ⟨cls, r, hs, hw, hr⟩ := h.classes.items c <;> rw [hs, hw]
  · rfl
  · exact hr.name

/-- Values are printed the same. -/
theorem text (h : s.Linked V κ w) (v : Value) : w.text v = s.text v := by
  cases v with
  | function f =>
    rw [World.text, Store.text, World.functionName, Store.functionName]
    obtain ⟨hs, hw⟩ | ⟨c, r, hs, hw, hr⟩ := h.functions.items f <;> rw [hs, hw]
    · rfl
    · exact congrArg (fun d : FunctionDecl => "<fn " ++ d.name.name ++ ">") hr.decl
  | cls c => exact h.className c
  | object i =>
    have hn : w.instanceName i = s.instanceName i := by
      rw [World.instanceName, Store.instanceName, h.instances]
      simp only [h.className]
    rw [World.text, Store.text, hn]
  | nil | bool | number | string | native => rfl

/-- A name means a field or a method on both sides, or nothing. -/
theorem property? (h : s.Linked V κ w) (i : InstanceId) (x : String) :
    s.property? i x = none ∧ w.property? i x = none ∨
      (∃ v, s.property? i x = some (.field v) ∧ w.property? i x = some (.inl v)) ∨
      ∃ m r, s.property? i x = some (.method m) ∧ w.property? i x = some (.inr r) ∧
        m.MethodLinked V κ s r := by
  rw [Store.property?, World.property?, h.instances]
  cases s.instances[i]? with
  | none => exact .inl ⟨rfl, rfl⟩
  | some inst =>
    dsimp only
    cases inst.fields.find? x with
    | some v => exact .inr (.inl ⟨v, rfl, rfl⟩)
    | none =>
      dsimp only
      obtain ⟨hs, hw⟩ | ⟨m, r, hs, hw, hr⟩ := h.method? inst.cls x <;> rw [hs, hw]
      · exact .inl ⟨rfl, rfl⟩
      · exact .inr (.inr ⟨m, r, rfl, rfl, hr⟩)

/-! ### Frames that are made with variables -/

/-- The frame that holds `this`, or that holds `super`. -/
theorem addVariable (h : s.Linked V κ w) (hs : Lox.globals < s.frames.size) (hl : κ.Sees s f cs l)
    (x : String) (v : Value) :
    ∃ ν, ν.Extends κ ∧ (s.addFrame ⟨Table.empty.insert x v, some f⟩).2.Linked V ν (w.fresh v).2 ∧
      ν.Sees (s.addFrame ⟨Table.empty.insert x v, some f⟩).2 s.frames.size
        (Table.empty.insert x true :: cs) (l.insert x w.cells.size) ∧
      ν s.frames.size x = some w.cells.size := by
  have heq : (s.addFrame ⟨Table.empty.insert x v, some f⟩).2 =
      (s.addScope (some f)).2.define s.frames.size x v :=
        (define_addFrame s ⟨.empty, some f⟩ x v).symm
  have hnew : (s.addScope (some f)).2.bound? s.frames.size x = none :=
    (bound?_addFrame s _ _ x).trans (if_pos rfl)
  have hlt : s.frames.size < (s.addScope (some f)).2.frames.size :=
    Nat.lt_of_lt_of_eq (Nat.lt_succ_self _) (size_addFrame s _).symm
  have ht := h.addScope hs (some f)
  have hκ := Naming.extends_add (ht.eq_none hnew) w.cells.size
  refine ⟨κ.add s.frames.size x w.cells.size, hκ, ?_, ?_, Naming.add_self _ _ _ _⟩
  · rw [heq]
    exact ht.declare (Nat.ne_of_gt hs) hlt hnew v
  · rw [heq]
    exact hl.openScope.define hκ (.define _ _ x v) (Naming.add_self _ _ _ _)

/-- A method that is bound to an instance can be called. -/
theorem bind (h : s.Linked V κ w) (hs : Lox.globals < s.frames.size) {m : Closure} {r : Function}
    (hm : m.MethodLinked V κ s r) (i : InstanceId) :
    ∃ ν, ν.Extends κ ∧ (s.bind m i).2.Linked V ν (w.bind r i).2 ∧
      (s.bind m i).1.Linked V ν (s.bind m i).2 (w.bind r i).1 := by
  obtain ⟨u, kind, cs, hu, hc, hl, hv⟩ := hm.visited
  obtain ⟨ν, hν, ht, hsees, hthis⟩ := h.addVariable hs hl "this" (.object i)
  refine ⟨ν, hν, ht, ⟨hm.decl, hm.isInitializer, u, kind, _, hu, ?_, hsees, hv⟩, fun _ => ?_⟩
  · refine (Mirrors.addFrame hc fun x => ?_).covers
    rw [Table.find?_insert, Table.find?_insert]
    split <;> simp
  · exact ⟨_, hthis, Table.find?_insert_self _ _ _⟩

theorem bindValue (h : s.Linked V κ w) (hs : Lox.globals < s.frames.size) {m : Closure}
    {r : Function} (hm : m.MethodLinked V κ s r) (i : InstanceId) :
    ∃ ν, ν.Extends κ ∧ (w.bindValue r i).1 = (s.bindValue m i).1 ∧
      (s.bindValue m i).2.Linked V ν (w.bindValue r i).2 := by
  obtain ⟨ν, hν, ht, hb⟩ := h.bind hs hm i
  exact ⟨ν, hν, ht.addFunction_fst _ _, ht.addFunction hb⟩

/-- The variables of a call: every parameter is declared in the new frame. -/
theorem bindParameters {xs : List Ident} {vs : List Value} (hn : vs.length = xs.length) {u : Walk}
    {c : Scope} (hu : u.scopes = c :: cs) (hx : ∀ v ∈ u.parameterVisits xs, v.errors = [])
    (h : s.Linked V κ w) (hs : Lox.globals < s.frames.size) (hf : f ≠ Lox.globals)
    (hm : s.Mirrors f u.scopes) (hl : κ.Sees s f u.scopes l) :
    ∃ ν k cells, Lexical.bindParameters l (xs.zip vs) w = .done k { w with cells := cells } ∧
      ν.Extends κ ∧
      ((xs.zip vs).foldl (fun s p => s.define f p.1.name p.2) s).Linked V ν
        { w with cells := cells } ∧
      ν.Sees ((xs.zip vs).foldl (fun s p => s.define f p.1.name p.2) s) f
        (u.declareAll xs).scopes k := by
  induction xs generalizing vs u c s κ w l with
  | nil => exact ⟨κ, l, w.cells, rfl, .refl κ, h, hl⟩
  | cons x xs ih =>
    cases vs with
    | nil => cases hn
    | cons v vs =>
      have hx' : c.find? x.name = none := u.find?_of_declaration (hx _ List.mem_cons_self) hu
      have hlt := hm.covers.lt_size hs
      have hnew : s.bound? f x.name = none := by
        cases hb : s.bound? f x.name with
        | none => rfl
        | some a =>
          have hexact := hm.exact
          rw [hu] at hexact
          have ht := hexact x.name (by simp [hb])
          rw [hx'] at ht
          cases ht
      have hκ := Naming.extends_add (h.eq_none hnew) w.cells.size
      have hscopes : ((u.declare x).define x.name).scopes = c.insert x.name true :: cs := by
        rw [u.scopes_declare_define, hu]
        rfl
      have hm' : (s.define f x.name v).Mirrors f ((u.declare x).define x.name).scopes := by
        rw [u.scopes_declare_define]
        exact hm.define hlt x.name v
      have hl' : (κ.add f x.name w.cells.size).Sees (s.define f x.name v) f
          ((u.declare x).define x.name).scopes (l.insert x.name w.cells.size) := by
        rw [hu] at hl
        rw [hscopes]
        exact hl.define hκ (.define s f x.name v) (Naming.add_self _ _ _ _)
      have hs' : Lox.globals < (s.define f x.name v).frames.size := by simpa using hs
      obtain ⟨ν, k, cells, hk, hν, ht, hsees⟩ := ih (Nat.succ.inj hn) hscopes
        (fun v hv => hx v (List.mem_cons_of_mem _ hv)) (h.declare hf hlt hnew v) hs' hm' hl'
      exact ⟨ν, k, cells, hk, hκ.trans hν, ht, hsees⟩

end Store.Linked

/-! ### Tables of functions -/

/-- The two tables of the methods of a class. -/
theorem find?_methodTable (f : FrameId) (ms : List FunctionDecl) (x : String) :
    (Run.methodTable f ms).find? x =
      ((Lexical.methodTable ms).find? x).map fun d => ⟨d, f, d.name.name = initializerName⟩ := by
  have hfold : ∀ (t : Table Closure) (r : Table FunctionDecl),
      (t.find? x = (r.find? x).map fun d => ⟨d, f, d.name.name = initializerName⟩) →
      (ms.foldl (fun t d => t.insert d.name.name ⟨d, f, d.name.name = initializerName⟩) t).find? x =
        ((ms.foldl (fun t d => t.insert d.name.name d) r).find? x).map
          fun d => ⟨d, f, d.name.name = initializerName⟩ := by
    induction ms with
    | nil => exact fun t r h => h
    | cons d ms ih =>
      intro t r h
      refine ih _ _ ?_
      rw [Table.find?_insert, Table.find?_insert]
      split
      · rfl
      · exact h
  exact hfold .empty .empty rfl

/-- The frame of a call is a frame in which the parameters are defined one by one. -/
theorem Store.addFrame_bindParameters (s : Store) (xs : List Ident) (vs : List Value)
    (e : Option FrameId) :
    (s.addFrame ⟨Run.bindParameters xs vs, e⟩).2 =
      (xs.zip vs).foldl (fun t p => t.define s.frames.size p.1.name p.2) (s.addScope e).2 := by
  have hfold : ∀ (ps : List (Ident × Value)) (t : Table Value),
      (s.addFrame ⟨ps.foldl (fun t p => t.insert p.1.name p.2) t, e⟩).2 =
        ps.foldl (fun t p => t.define s.frames.size p.1.name p.2) (s.addFrame ⟨t, e⟩).2 := by
    intro ps
    induction ps with
    | nil => exact fun t => rfl
    | cons p ps ih =>
      intro t
      rw [List.foldl_cons, List.foldl_cons, ih, s.define_addFrame]
  exact hfold _ .empty

end Lox
