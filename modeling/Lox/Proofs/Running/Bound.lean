import Lox.Proofs.Running.Calls
import Lox.Proofs.Running.Code
/-!
# Functions and bound methods

A function that a program holds as a value is one that a statement declared, or it is a method,
and then it has a frame of its own in which `this` is an instance. That this is so at all times
asks nothing of a program but that `this` and `super` are not the names of variables; the
distances may be any.
-/

namespace Lox

/-- Whether what stands there does not name a variable `this` or `super`. -/
def Sight.NamesPlain : Sight → Prop
  | .expr (.var _ x) => Plain x.name
  | .expr (.assign _ x _) => Plain x.name
  | .declaration x => Plain x.name
  | _ => True

theorem Sight.Proper.namesPlain {v : Sight} (h : v.Proper) : v.NamesPlain := by
  unfold NamesPlain
  split
  · exact h
  · exact h
  · exact h
  · trivial

/-- Whether the function is one that a statement declares. -/
structure Closure.Declared (F : FunctionDecl → Prop) (c : Closure) : Prop where
  plain : c.isInitializer = false
  declared : F c.decl

/-- Whether the function is a method of some class, bound to the instance `i` in a
frame of its own. -/
structure Closure.Bound (s : Store) (c : Closure) (i : InstanceId) : Prop where
  method : ∃ k cls m, s.HasMethod k cls m ∧ c = { m with scope := c.scope } ∧
    s.enclosing? c.scope = some m.scope
  initializer : c.isInitializer = decide (c.decl.name.name = initializerName)
  this : s.bound? c.scope "this" = some (.object i)
  known : ∃ inst, s.instances[i]? = some inst

/-- What the declaration of a function or a method is to be like: it does not name variables `this`
or `super`, and `F` holds of the functions that statements inside of it declare. -/
structure FunctionDecl.WellNamed (F : FunctionDecl → Prop) (d : FunctionDecl) : Prop where
  plain : ∀ v ∈ d.sights, v.NamesPlain
  functions : ∀ e ∈ d.functions, F e

/-- The functions in the store are declared ones or bound methods. -/
structure Store.Binds (F : FunctionDecl → Prop) (s : Store) : Prop where
  code : s.Declares (·.WellNamed F)
  functions : ∀ c ∈ s.functions, c.Declared F ∨ ∃ i, c.Bound s i
  initializers {k cls m} : s.HasMethod k cls m →
    m.isInitializer = decide (m.decl.name.name = initializerName)
  receivers {f v} : s.bound? f "this" = some v →
    ∃ i inst, v = .object i ∧ s.instances[i]? = some inst

/-- The functions in the store, which comes after `s₀`, are declared ones or bound methods. -/
def Condition.binding (F : FunctionDecl → Prop) (s₀ : Store) (d : Distances) : Condition where
  Good s := s₀.Extends s ∧ s.Binds F
  At _ _ := True
  Fits _ _ p := p.sight.NamesPlain
  Offers s m i := (∃ k cls, s.HasMethod k cls m) ∧ ∃ inst, s.instances[i]? = some inst
  Allows := F
  distances := d

variable {F : FunctionDecl → Prop} {s s₀ t : Store} {c m : Closure} {i : InstanceId} {d : Distances}

theorem Closure.Bound.mono (h : c.Bound s i) (he : s.Extends t) : c.Bound t i where
  method := by
    obtain ⟨k, cls, m, hm, hc, henc⟩ := h.method
    exact ⟨k, cls, m, he.hasMethod hm, hc,
      (he.grows.enclosing _ (Store.lt_of_enclosing? henc)).trans henc⟩
  initializer := h.initializer
  this := by
    rw [he.bound _ (Store.lt_of_bound? (Option.isSome_of_eq_some h.this)) _ Store.not_plain_this]
    exact h.this
  known := by
    obtain ⟨inst, hi⟩ := h.known
    obtain ⟨inst', hi', -⟩ := he.instances i inst hi
    exact ⟨inst', hi'⟩

namespace Store.Binds

/-- What is new has to be looked at. -/
theorem of_extends (h : s.Binds F) (he : s.Extends t) (hw : t.Declares (·.WellNamed F))
    (hf : ∀ c ∈ t.functions, c ∈ s.functions ∨ c.Declared F ∨ ∃ i, c.Bound t i)
    (hm : ∀ {k cls m}, t.HasMethod k cls m →
      s.HasMethod k cls m ∨ m.isInitializer = decide (m.decl.name.name = initializerName))
    (hr : ∀ f v, s.frames.size ≤ f → t.bound? f "this" = some v →
      ∃ i inst, v = .object i ∧ t.instances[i]? = some inst) : t.Binds F where
  code := hw
  functions c hc := by
    rcases hf c hc with hc | hc
    · exact (h.functions c hc).imp_right fun ⟨i, hb⟩ => ⟨i, hb.mono he⟩
    · exact hc
  initializers hk := (hm hk).elim h.initializers id
  receivers {f v} hv := by
    rcases Nat.lt_or_ge f s.frames.size with hlt | hge
    · rw [he.bound f hlt _ not_plain_this] at hv
      obtain ⟨i, inst, rfl, hi⟩ := h.receivers hv
      obtain ⟨inst', hi', -⟩ := he.instances i inst hi
      exact ⟨i, inst', rfl, hi'⟩
    · exact hr f v hge hv

/-- Neither functions nor classes are new. -/
theorem of_frames (h : s.Binds F) (he : s.Extends t) (hc : t.classes = s.classes)
    (hf : t.functions = s.functions)
    (hr : ∀ f v, s.frames.size ≤ f → t.bound? f "this" = some v →
      ∃ i inst, v = .object i ∧ t.instances[i]? = some inst) : t.Binds F :=
  h.of_extends he ⟨fun c hm => h.code.functions c (hf ▸ hm), fun k hk => h.code.methods k (hc ▸ hk)⟩
    (fun _ hm => .inl (hf ▸ hm)) (fun hk => .inl ⟨hc ▸ hk.known, hk.found⟩) hr

/-- No frames are new. -/
theorem not_new (hs : t.frames.size ≤ s.frames.size) (f : FrameId) (v : Value)
    (hf : s.frames.size ≤ f) (hv : t.bound? f "this" = some v) :
    ∃ i inst, v = .object i ∧ t.instances[i]? = some inst :=
  absurd (Nat.le_trans hs hf) (Nat.not_le.mpr (lt_of_bound? (Option.isSome_of_eq_some hv)))

/-- A frame that is not one of a receiver. -/
theorem addFrame (h : s.Binds F) {fr : Frame} (hr : fr.bindings.find? "this" = none) :
    (s.addFrame fr).2.Binds F := by
  refine h.of_frames (.addFrame s fr) rfl rfl fun f v hf hv => ?_
  rw [bound?_addFrame] at hv
  split at hv
  · rw [hr] at hv
    cases hv
  · exact absurd hf (Nat.not_le.mpr (lt_of_bound? (Option.isSome_of_eq_some hv)))

theorem define (h : s.Binds F) (f : FrameId) {x : String} (hx : Plain x) (v : Value) :
    (s.define f x v).Binds F :=
  h.of_frames (.define s f hx v) rfl rfl (not_new (Nat.le_of_eq (size_define s f x v)))

theorem addFunction (h : s.Binds F) (hw : c.decl.WellNamed F)
    (hc : c.Declared F ∨ ∃ i, c.Bound s i) : (s.addFunction c).2.Binds F := by
  have he := Extends.addFunction s c
  refine h.of_extends he (h.code.addFunction hw) (fun e hm => ?_)
    (fun hk => .inl ⟨hk.known, hk.found⟩)
    (not_new (Nat.le_refl _))
  rcases Array.mem_push.mp hm with hm | rfl
  · exact .inl hm
  · exact .inr (hc.imp_right fun ⟨i, hb⟩ => ⟨i, hb.mono he⟩)

theorem addClass (h : s.Binds F) {x : String} {p : Option ClassId} {f : FrameId}
    {ms : List FunctionDecl} (hms : ∀ d ∈ ms, d.WellNamed F) :
    (s.addClass ⟨x, p, Run.methodTable f ms⟩).2.Binds F := by
  refine h.of_extends (.addClass s _) (h.code.addClass fun e he =>
    hms _ (Run.decl_of_mem_methodTable he))
    (fun _ hc => .inl hc) (fun {k cls m} hk => ?_) (not_new (Nat.le_refl _))
  obtain ⟨hk, y, hy⟩ := hk
  change (s.classes.push _)[k]? = some cls at hk
  rw [Array.getElem?_push] at hk
  split at hk
  · cases hk
    obtain ⟨d, -, rfl⟩ := mem_of_find?_methodTable hy
    exact .inr rfl
  · exact .inl ⟨hk, y, hy⟩

/-- A method that is bound to an instance. -/
theorem bind (h : s.Binds F) {k : ClassId} {cls : Class} (hm : s.HasMethod k cls m)
    {inst : Instance} (hi : s.instances[i]? = some inst) :
    (s.bind m i).2.Binds F ∧ (s.bind m i).1.Bound (s.bind m i).2 i := by
  have he := Extends.addFrame s ⟨Table.empty.insert "this" (.object i), some m.scope⟩
  have hthis : (s.bind m i).2.bound? (s.bind m i).1.scope "this" = some (.object i) :=
    (bound?_addFrame s _ _ _).trans ((if_pos rfl).trans (Table.find?_insert_self _ _ _))
  refine ⟨h.of_frames he rfl rfl fun f v hf hv => ?_, ?_⟩
  · have hlt : f < (s.addFrame _).2.frames.size := lt_of_bound? (Option.isSome_of_eq_some hv)
    rw [size_addFrame] at hlt
    obtain rfl := Nat.le_antisymm (Nat.le_of_lt_succ hlt) hf
    exact ⟨i, inst, Option.some.inj (hv.symm.trans hthis), hi⟩
  · exact ⟨⟨k, cls, m, he.hasMethod hm, rfl, (enclosing?_addFrame s _ _).trans (if_pos rfl)⟩,
      h.initializers (m := m) hm, hthis, inst, hi⟩

theorem wellNamed_of_hasMethod (h : s.Binds F) {k : ClassId} {cls : Class}
    (hm : s.HasMethod k cls m) : m.decl.WellNamed F := by
  obtain ⟨x, hx⟩ := hm.found
  obtain ⟨e, he, rfl⟩ := Table.mem_entries_of_find? hx
  exact h.code.methods cls (Array.mem_of_getElem? hm.known) e he

theorem addInstance (h : s.Binds F) (inst : Instance) : (s.addInstance inst).2.Binds F :=
  h.of_frames (.addInstance s inst) rfl rfl (not_new (Nat.le_refl _))

theorem setField (h : s.Binds F) (i : InstanceId) (x : String) (v : Value) :
    (s.setField i x v).Binds F :=
  h.of_frames (.setField s i x v) rfl rfl (not_new (Nat.le_refl _))

end Store.Binds

namespace Condition

theorem leads_binding (h : (binding F s₀ d).Good s) (he : s.Extends t) (ht : t.Binds F) :
    (binding F s₀ d).Leads s t :=
  ⟨⟨h.1.trans he, ht⟩, fun _ _ => True.intro, fun _ _ hp => hp⟩

theorem wellNamed_of_spots {e : FunctionDecl} (hp : ∀ p ∈ e.spots, p.sight.NamesPlain)
    (hf : ∀ a ∈ e.functions, F a) : e.WellNamed F :=
  ⟨FunctionDecl.forall_spots.mp hp, hf⟩

theorem wellNamed_of_spotsAll {ms : List FunctionDecl} {b : Bool}
    (hp : ∀ p ∈ FunctionDecl.spotsAll ms, (p.inMethod b).sight.NamesPlain)
    (hf : ∀ a ∈ FunctionDecl.functionsAll ms, F a) : ∀ e ∈ ms, e.WellNamed F := fun _ he =>
  wellNamed_of_spots (fun p hm => p.sight_inMethod b ▸ hp p (FunctionDecl.mem_spotsAll he hm))
    fun a ha => hf a (FunctionDecl.mem_functionsAll he ha)

theorem invariant_binding (F : FunctionDecl → Prop) (s₀ : Store) (d : Distances) :
    (binding F s₀ d).Invariant where
  define v h _ hp := leads_binding h (.define _ _ hp v) (h.2.define _ hp v)
  assign v h hp _ := leads_binding h (.define _ _ hp v) (h.2.define _ hp v)
  block h _ := ⟨leads_binding h (.addFrame _ _) (h.2.addFrame rfl), True.intro,
    fun p hp => show p.sight.NamesPlain from p.sight_deeper ▸ hp⟩
  function h _ hp hf := leads_binding h (.addFunction _ _)
    (h.2.addFunction (wellNamed_of_spots hp fun a ha => hf a (List.mem_cons_of_mem _ ha))
      (.inl ⟨rfl, hf _ List.mem_cons_self⟩))
  functions h hc := (h.2.code.functions _ hc).functions
  spots h hc := FunctionDecl.forall_spots.mpr (h.2.code.functions _ hc).plain
  call vs h hp := by
    have hthis :=
      find?_bindParameters_of_plain (fun x hx => hp _ (FunctionDecl.declaration_mem_spots hx)) vs
      Store.not_plain_this
    exact ⟨leads_binding h (.addFrame _ _) (h.2.addFrame hthis), True.intro,
      fun p hb =>
        show p.sight.NamesPlain from p.sight_deeper ▸ hp _ (FunctionDecl.deeper_mem_spots hb)⟩
  plain h _ hp hf := leads_binding h (.addClass _ _) (h.2.addClass (wellNamed_of_spotsAll hp hf))
  parent c h _ :=
    leads_binding h (.addFrame _ _) (h.2.addFrame (Table.find?_insert_of_ne _ _ (by decide)))
  subclass {s f x ms} c h _ hp hf := by
    have hframe : (s.addFrame ⟨Table.empty.insert "super" (.cls c), some f⟩).2.Binds F :=
      h.2.addFrame (Table.find?_insert_of_ne _ _ (by decide))
    exact leads_binding ⟨h.1.trans (.addFrame _ _), hframe⟩ (.addClass _ _)
      (hframe.addClass (wellNamed_of_spotsAll hp hf))
  addInstance c h := leads_binding h (.addInstance _ _) (h.2.addInstance _)
  setField i x v h := leads_binding h (.setField _ i x v) (h.2.setField i x v)
  offersOwn h hi hm := by
    obtain ⟨k, cls, -, hhas⟩ := Store.hasMethod_of_method? hm
    exact ⟨⟨k, cls, hhas⟩, _, hi⟩
  offersSuper h _ _ _ hi hm := by
    obtain ⟨k, cls, -, hhas⟩ := Store.hasMethod_of_method? hm
    obtain ⟨f, -, hthis⟩ := Option.bind_eq_some_iff.mp hi
    obtain ⟨j, inst, hj, hinst⟩ := h.2.receivers hthis
    cases hj
    exact ⟨⟨k, cls, hhas⟩, inst, hinst⟩
  offered h ho := by
    obtain ⟨⟨k, cls, hhas⟩, -⟩ := ho
    exact (h.2.wellNamed_of_hasMethod hhas).functions
  bind h ho := by
    obtain ⟨⟨k, cls, hhas⟩, inst, hi⟩ := ho
    exact ⟨leads_binding h (.addFrame _ _) (h.2.bind hhas hi).1,
      FunctionDecl.forall_spots.mpr (h.2.wellNamed_of_hasMethod hhas).plain⟩
  bindValue h ho := by
    obtain ⟨⟨k, cls, hhas⟩, inst, hi⟩ := ho
    have hnamed := h.2.wellNamed_of_hasMethod hhas
    obtain ⟨hbinds, hbound⟩ := h.2.bind hhas hi
    exact leads_binding h (.trans (.addFrame _ _) (.addFunction _ _))
      (hbinds.addFunction hnamed (.inr ⟨_, hbound⟩))

end Condition

end Lox
