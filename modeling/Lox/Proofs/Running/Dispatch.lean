import Lox.Proofs.Running.Frames
import Lox.Proofs.Running.Invariant
import Lox.Proofs.Scoping.Agreement
import Lox.Proofs.Scoping.Supers
import Lox.Proofs.Store.Receivers
/-!
# Where `super` is looked up

The methods of a class that inherits close over a frame that binds `super` to its superclass, and no
other class has methods there. So wherever `super` runs, the nearest receiver frame belongs to a
method of the class in whose declaration it stands. That this is so at all times is an invariant of
running programs, and with it goes that every receiver is an instance of a class that inherits from
the class of its method.
-/

namespace Lox

variable (V : Visit → Prop)

/-- Whether the walk saw `v` with `n` scopes between it and the scope of the receiver. -/
def Sight.SuperAt (v : Sight) (n : Nat) : Prop := ∃ c, V ⟨v, c⟩ ∧ c.nearest? "super" = some (n + 1)

/-- Whether what stands at a spot of a method belongs to a class that inherits. -/
def Side.inherits (own : Bool) : Side → Bool
  | .here => own
  | .method b => b

namespace Spot

/-- What is asked of a spot in a method; `own` says whether its class inherits. -/
structure InMethod (own : Bool) (p : Spot) : Prop where
  proper : p.sight.Proper
  inherits : p.IsSuper → p.side.inherits own = true ∧ p.sight.SuperAt V p.depth

/-- Whether the spot, in code that runs in the frame `f`, stands in the declaration of a method of a
class that inherits, `d` links in from a frame of that method's receiver. -/
structure Received (s : Store) (f : FrameId) (p : Spot) (d : Nat) (g : FrameId) (i : InstanceId)
    (k : ClassId) (cls : Class) (m : Closure) : Prop where
  ancestor : s.ancestor? d f = some g
  receives : s.Receives g i k cls m
  inherits : cls.superclass.isSome
  declared : ⟨.here, d + p.depth, p.sight⟩ ∈ m.decl.spots

/-- What is asked of a spot in code that runs in the frame `f`. -/
structure Dispatched (s : Store) (f : FrameId) (p : Spot) : Prop where
  proper : p.sight.Proper
  here : p.IsSuper → p.side = .here →
    ∃ d g i k cls m, p.Received s f d g i k cls m ∧ p.sight.SuperAt V (d + p.depth)
  method : p.IsSuper → ∀ b, p.side = .method b → b = true ∧ p.sight.SuperAt V p.depth

end Spot

/-- What is asked of a function. A function in the frame of a receiver is a method bound to it. -/
structure Closure.Dispatched (s : Store) (c : Closure) : Prop where
  scope : c.scope < s.frames.size
  spots : ∀ p ∈ c.decl.spots, p.Dispatched V s c.scope
  bound : (s.bound? c.scope "this").isSome →
    ∃ i k cls m, s.Receives c.scope i k cls m ∧ c = { m with scope := c.scope }

namespace Store

/-- What is asked of the methods of all classes. -/
structure Parented (s : Store) : Prop where
  scope {k cls m} : s.HasMethod k cls m → m.scope < s.frames.size
  parent {k cls m} : s.HasMethod k cls m → s.bound? m.scope "super" = cls.superclass.map .cls
  spots {k cls m} : s.HasMethod k cls m → ∀ p ∈ m.decl.spots, p.InMethod V cls.superclass.isSome
  unique {k cls m k' cls' m'} : s.HasMethod k cls m → s.HasMethod k' cls' m' → m'.scope = m.scope →
    cls.superclass.isSome → k' = k

structure Dispatches (s : Store) : Prop extends s.Parented V where
  functions : ∀ c ∈ s.functions, c.Dispatched V s
  receivers : ∀ f v, s.bound? f "this" = some v →
    ∃ i k cls m, v = .object i ∧ s.Receives f i k cls m

end Store

/-- The methods of a class close over frames that bind its superclass, and receivers are instances
of classes that inherit from the classes of their methods. -/
def Condition.dispatch (d : Distances) : Condition where
  Good := Store.Dispatches V
  At s f := f < s.frames.size ∧ s.bound? f "this" = none ∧ s.bound? f "super" = none
  Fits := fun s f p => p.Dispatched V s f
  Offers s m i := ∃ k cls inst, s.HasMethod k cls m ∧ s.instances[i]? = some inst ∧
    s.Inherits inst.cls k
  Allows _ := True
  distances := d

variable {V} {s t : Store} {f g : FrameId} {p : Spot} {c m : Closure} {d : Distances}

/-! ### Later stores -/

theorem Spot.Received.mono {n : Nat} {i : InstanceId} {k : ClassId} {cls : Class}
    (h : p.Received s f n g i k cls m) (he : s.Extends t) : p.Received t f n g i k cls m :=
  ⟨he.ancestor? h.ancestor, he.receives h.receives, h.inherits, h.declared⟩

theorem Spot.Dispatched.mono (h : p.Dispatched V s f) (he : s.Extends t) : p.Dispatched V t f where
  proper := h.proper
  method := h.method
  here hp hs := by
    obtain ⟨n, g, i, k, cls, m, hr, hv⟩ := h.here hp hs
    exact ⟨n, g, i, k, cls, m, hr.mono he, hv⟩

theorem Closure.Dispatched.mono (h : c.Dispatched V s) (he : s.Extends t) : c.Dispatched V t where
  scope := Nat.lt_of_lt_of_le h.scope he.grows.size
  spots p hp := (h.spots p hp).mono he
  bound hb := by
    rw [he.bound _ h.scope _ Store.not_plain_this] at hb
    obtain ⟨i, k, cls, m, hr, hc⟩ := h.bound hb
    exact ⟨i, k, cls, m, he.receives hr, hc⟩

theorem Store.Parented.mono (h : s.Parented V) (he : s.Extends t) (hc : t.classes = s.classes) :
    t.Parented V := by
  have hback : ∀ {k cls m}, t.HasMethod k cls m →
      s.HasMethod k cls m := fun hm => ⟨hc ▸ hm.known, hm.found⟩
  refine ⟨fun hm => ?_, fun hm => ?_, fun hm => h.spots (hback hm),
    fun hm hm' => h.unique (hback hm) (hback hm')⟩
  · exact Nat.lt_of_lt_of_le (h.scope (hback hm)) he.grows.size
  · rw [he.bound _ (h.scope (hback hm)) _ not_plain_super]
    exact h.parent (hback hm)

namespace Store.Dispatches

variable (h : s.Dispatches V) (he : s.Extends t)

include h he

/-- What is new has to be looked at. -/
theorem of_extends (hp : t.Parented V) (hf : ∀ c ∈ t.functions, c ∈ s.functions ∨ c.Dispatched V t)
    (hr : ∀ f v, s.frames.size ≤ f → t.bound? f "this" = some v →
      ∃ i k cls m, v = .object i ∧ t.Receives f i k cls m) : t.Dispatches V where
  toParented := hp
  functions c hc := (hf c hc).elim (fun hc => (h.functions c hc).mono he) id
  receivers f v hv := by
    rcases Nat.lt_or_ge f s.frames.size with hlt | hge
    · rw [he.bound f hlt _ not_plain_this] at hv
      obtain ⟨i, k, cls, m, rfl, hm⟩ := h.receivers f v hv
      exact ⟨i, k, cls, m, rfl, he.receives hm⟩
    · exact hr f v hge hv

/-- Neither functions nor classes are new. -/
theorem of_frames (hc : t.classes = s.classes) (hf : t.functions = s.functions)
    (hr : ∀ f v, s.frames.size ≤ f → t.bound? f "this" = some v →
      ∃ i k cls m, v = .object i ∧ t.Receives f i k cls m) : t.Dispatches V :=
  h.of_extends he (h.toParented.mono he hc) (fun _ hm => .inl (hf ▸ hm)) hr

end Store.Dispatches

namespace Condition

variable {x : String} {v : Value} {i : InstanceId} {k : ClassId} {cls : Class}

theorem leads_dispatch (he : s.Extends t) (ht : t.Dispatches V) : (dispatch V d).Leads s t where
  good := ht
  frames f hf := ⟨Nat.lt_of_lt_of_le hf.1 he.grows.size,
    (he.bound f hf.1 _ Store.not_plain_this).trans hf.2.1,
    (he.bound f hf.1 _ Store.not_plain_super).trans hf.2.2⟩
  spots _ _ hp := Spot.Dispatched.mono hp he

/-! ### Operations -/

/-- A frame that is not one of a receiver. -/
theorem leads_dispatch_addFrame (h : s.Dispatches V) {fr : Frame}
    (hr : fr.bindings.find? "this" = none) : (dispatch V d).Leads s (s.addFrame fr).2 := by
  have he := Store.Extends.addFrame s fr
  refine leads_dispatch he (h.of_frames he rfl rfl fun f v hf hv => ?_)
  rw [Store.bound?_addFrame] at hv
  split at hv
  · rw [hr] at hv
    cases hv
  · exact absurd hf (Nat.not_le.mpr (Store.lt_of_bound? (Option.isSome_of_eq_some hv)))

theorem at_addFrame {fr : Frame} (ht : fr.bindings.find? "this" = none)
    (hs : fr.bindings.find? "super" = none) :
    (dispatch V d).At (s.addFrame fr).2 s.frames.size := by
  refine ⟨?_, ?_, ?_⟩
  · rw [Store.size_addFrame]
    exact Nat.lt_succ_self _
  · rw [Store.bound?_addFrame, if_pos rfl, ht]
  · rw [Store.bound?_addFrame, if_pos rfl, hs]

theorem leads_dispatch_define (h : s.Dispatches V) (hx : Plain x) (f : FrameId) (v : Value) :
    (dispatch V d).Leads s (s.define f x v) := by
  have he := Store.Extends.define s f hx v
  refine leads_dispatch he (h.of_frames he rfl rfl fun g w hg hw => ?_)
  have hlt := Store.lt_of_bound? (Option.isSome_of_eq_some hw)
  rw [Store.size_define] at hlt
  exact absurd hg (Nat.not_le.mpr hlt)

theorem leads_dispatch_addFunction (h : s.Dispatches V) (hc : c.Dispatched V s) :
    (dispatch V d).Leads s (s.addFunction c).2 := by
  have he := Store.Extends.addFunction s c
  refine leads_dispatch he
    (h.of_extends he (h.toParented.mono he rfl) (fun e hm => ?_) fun f v hf hv => ?_)
  · rcases Array.mem_push.mp hm with hm | rfl
    · exact .inl hm
    · exact .inr (hc.mono he)
  · exact absurd hf (Nat.not_le.mpr (Store.lt_of_bound? (Option.isSome_of_eq_some hv)))

/-- A class whose methods are all declared in one frame, in which no other class declares any if one
of the two inherits. -/
theorem leads_dispatch_addClass (h : s.Dispatches V)
    (hm : ∀ x m, cls.methods.find? x = some m →
      m.scope = f ∧ ∀ p ∈ m.decl.spots, p.InMethod V cls.superclass.isSome)
    (hf : f < s.frames.size) (hp : s.bound? f "super" = cls.superclass.map .cls)
    (hu : ∀ {k cls' m}, s.HasMethod k cls' m → m.scope = f →
      cls.superclass = none ∧ cls'.superclass = none) :
    (dispatch V d).Leads s (s.addClass cls).2 := by
  have he := Store.Extends.addClass s cls
  have hback : ∀ {k cls' m}, (s.addClass cls).2.HasMethod k cls' m →
      s.HasMethod k cls' m ∨ k = s.classes.size ∧ cls' = cls ∧ m.scope = f ∧
        ∀ p ∈ m.decl.spots, p.InMethod V cls.superclass.isSome := by
    rintro k cls' m ⟨hk, y, hy⟩
    change (s.classes.push cls)[k]? = some cls' at hk
    rw [Array.getElem?_push] at hk
    split at hk
    · cases hk
      exact .inr ⟨‹_›, rfl, hm y m hy⟩
    · exact .inl ⟨hk, y, hy⟩
  refine leads_dispatch he (h.of_extends he ⟨fun hk => ?_, fun hk => ?_, fun hk => ?_,
    fun hk hk' hs hi => ?_⟩
    (fun _ hc => .inl hc) fun f v hf hv => ?_)
  · obtain hk | ⟨-, -, hs, -⟩ := hback hk
    · exact h.scope hk
    · exact hs ▸ hf
  · obtain hk | ⟨-, rfl, hs, -⟩ := hback hk
    · exact h.parent hk
    · exact hs ▸ hp
  · obtain hk | ⟨-, rfl, -, hspots⟩ := hback hk
    · exact h.spots hk
    · exact hspots
  · -- Of the two methods each is an old one or one of the class that is new.
    obtain hold | ⟨rfl, rfl, hscope, -⟩ :=
      hback hk <;> obtain hold' | ⟨rfl, -, hscope', -⟩ := hback hk'
    · exact h.unique hold hold' hs hi
    · rw [(hu hold (hs.symm.trans hscope')).2] at hi
      cases hi
    · rw [(hu hold' (hs.trans hscope)).1] at hi
      cases hi
    · rfl
  · exact absurd hf (Nat.not_le.mpr (Store.lt_of_bound? (Option.isSome_of_eq_some hv)))

theorem find?_methodTable_dispatch {own : Bool} {ms : List FunctionDecl}
    (hms : ∀ p ∈ FunctionDecl.spotsAll ms, p.InMethod V own)
    (hm : (Run.methodTable f ms).find? x = some m) :
    m.scope = f ∧ ∀ p ∈ m.decl.spots, p.InMethod V own := by
  obtain ⟨d, hd, rfl⟩ := mem_of_find?_methodTable hm
  exact ⟨rfl, fun p hp => hms p (FunctionDecl.mem_spotsAll hd hp)⟩

theorem bind_dispatch (h : s.Dispatches V) (ho : (dispatch V d).Offers s m i) :
    (dispatch V d).Leads s (s.bind m i).2 ∧ (s.bind m i).1.Dispatched V (s.bind m i).2 := by
  obtain ⟨k, cls, inst, hm, hi, hk⟩ := ho
  have he := Store.Extends.addFrame s ⟨Table.empty.insert "this" (.object i), some m.scope⟩
  have hr := Store.receives_bind hm hi hk
  refine ⟨leads_dispatch he (h.of_frames he rfl rfl fun f v hf hv => ?_), ?_,
    fun p hp => ?_, fun _ => ?_⟩
  · have hlt : f < (s.addFrame _).2.frames.size := Store.lt_of_bound? (Option.isSome_of_eq_some hv)
    rw [Store.size_addFrame] at hlt
    obtain rfl := Nat.le_antisymm (Nat.le_of_lt_succ hlt) hf
    exact ⟨i, k, cls, m, Option.some.inj (hv.symm.trans hr.receiver), hr⟩
  · exact (Store.size_addFrame s _).symm ▸ Nat.lt_succ_self _
  · have hspot := h.spots hm p hp
    refine ⟨hspot.proper, fun hs hside => ?_, fun hs b hside => ?_⟩
    · obtain ⟨hinh, hv⟩ := hspot.inherits hs
      rw [hside] at hinh
      obtain ⟨side, n, v⟩ := p
      cases hside
      exact ⟨0, _, i, k, cls, m, ⟨rfl, hr, hinh, by rwa [Nat.zero_add]⟩, by rwa [Nat.zero_add]⟩
    · obtain ⟨hinh, hv⟩ := hspot.inherits hs
      rw [hside] at hinh
      exact ⟨hinh, hv⟩
  · exact ⟨i, k, cls, m, hr, rfl⟩

theorem dispatched_deeper (he : s.Extends t) (henc : t.enclosing? g = some f)
    (h : p.deeper.Dispatched V s f) : p.Dispatched V t g := by
  obtain ⟨side, n, v⟩ := p
  cases side with
  | method b => exact ⟨h.proper, nofun, h.method⟩
  | here =>
    refine ⟨h.proper, fun hp _ => ?_, nofun⟩
    obtain ⟨e, a, i, k, cls, m, hr, hv⟩ := h.here hp rfl
    have hadd : e + (n + 1) = e + 1 + n := by omega
    have hanc : t.ancestor? (e + 1) g = some a := by
      rw [Store.ancestor?, henc]
      exact he.ancestor? hr.ancestor
    have hdecl := hr.declared
    rw [show (Spot.deeper ⟨.here, n, v⟩).depth = n + 1 from rfl, hadd] at hdecl hv
    exact ⟨e + 1, a, i, k, cls, m, ⟨hanc, he.receives hr.receives, hr.inherits, hdecl⟩, hv⟩

theorem inMethod_dispatched {own : Bool} (h : (p.inMethod own).Dispatched V s f) :
    p.InMethod V own := by
  obtain ⟨side, n, v⟩ := p
  cases side with
  | method b => exact ⟨h.proper, fun hp => h.method hp b rfl⟩
  | here => exact ⟨h.proper, fun hp => h.method hp own rfl⟩

/-- The class in which `super` looks is the superclass of the one whose method has the receiver. -/
theorem dispatched_super {a : Site} {y : Ident} {n : Nat} {c : ClassId} (hV : ∀ v, V v → v.Sound d)
    (hs : s.Dispatches V) (h : (Spot.here (.expr (.super a y))).Dispatched V s f)
    (hd : d.get? a.id = some (n + 1)) (hc : s.getAt? f (n + 1) "super" = some (.cls c))
    (hi : s.getAt? f n "this" = some (.object i)) :
    ∃ g k cls m, (Spot.here (.expr (.super a y))).Received s f n g i k cls m ∧
    cls.superclass = some c := by
  obtain ⟨e, g, j, k, cls, m, hr, u, hu, hn⟩ := h.here ⟨a, y, rfl⟩ rfl
  have hen : e = n := by
    have hrec : d.get? a.id = u.nearest? "super" := (hV _ hu).recorded a.id rfl
    rw [hd, hn] at hrec
    exact (Nat.succ.inj (Option.some.inj hrec)).symm
  subst hen
  have hij : j = i := by
    rw [Store.getAt?, hr.ancestor, Option.bind_some, hr.receives.receiver] at hi
    exact Value.object.inj (Option.some.inj hi)
  subst hij
  refine ⟨g, k, cls, m, hr, ?_⟩
  rw [Store.getAt?, Store.ancestor?_succ hr.ancestor, hr.receives.enclosing, Option.bind_some,
    hs.parent hr.receives.method] at hc
  obtain ⟨c', hc', hcc⟩ := Option.map_eq_some_iff.mp hc
  cases hcc
  exact hc'

theorem invariant_dispatch (hV : ∀ v, V v → v.Sound d) : (dispatch V d).Invariant where
  define v hs _ hp := leads_dispatch_define hs hp.proper _ v
  assign v hs hp _ := leads_dispatch_define hs hp.proper _ v
  block hs hf :=
    have hl := leads_dispatch_addFrame hs rfl
    have he := Store.Extends.addFrame _ _
    have henc := (Store.enclosing?_addFrame _ _ _).trans (if_pos rfl)
    ⟨hl, at_addFrame rfl rfl, fun p hp => dispatched_deeper he henc hp⟩
  function hs hf hp _ :=
    leads_dispatch_addFunction hs ⟨hf.1, hp, fun hb => by rw [hf.2.1] at hb; cases hb⟩
  functions _ _ _ _ := True.intro
  spots hs hc p hp := (hs.functions _ hc).spots p hp
  call {s c} vs hs hp := by
    have hplain : ∀ x ∈ c.decl.parameters, Plain x.name := fun x hx =>
      (hp _ (FunctionDecl.declaration_mem_spots hx)).proper
    have hthis := find?_bindParameters_of_plain hplain vs Store.not_plain_this
    have hsuper := find?_bindParameters_of_plain hplain vs Store.not_plain_super
    refine ⟨leads_dispatch_addFrame hs hthis, at_addFrame hthis hsuper, fun p hb => ?_⟩
    exact dispatched_deeper (.addFrame s _) ((Store.enclosing?_addFrame s _ _).trans (if_pos rfl))
      (hp _ (FunctionDecl.deeper_mem_spots hb))
  plain hs hf hp _ := leads_dispatch_addClass hs
    (fun _ _ => find?_methodTable_dispatch fun p hm => inMethod_dispatched (hp p hm)) hf.1 hf.2.2
    -- A class with methods in this frame has the superclass that the frame binds,
    -- and it binds none.
    fun {k cls m} hm hscope => by
      have hparent := hs.parent hm
      rw [hscope, hf.2.2] at hparent
      exact ⟨rfl, Option.map_eq_none_iff.mp hparent.symm⟩
  parent c hs hf := leads_dispatch_addFrame hs (Table.find?_insert_of_ne _ _ (by decide))
  subclass {s f x ms} c hs hf hp _ := by
    have hl : (dispatch V d).Leads s (s.addFrame ⟨Table.empty.insert "super" (.cls c), some f⟩).2 :=
      leads_dispatch_addFrame hs (Table.find?_insert_of_ne _ _ (by decide))
    refine leads_dispatch_addClass (f := s.frames.size) hl.good
      (fun _ _ => find?_methodTable_dispatch fun p hm => inMethod_dispatched (hp p hm)) ?_ ?_ ?_
    · rw [Store.size_addFrame]
      exact Nat.lt_succ_self _
    · rw [Store.bound?_addFrame, if_pos rfl, Table.find?_insert_self]
      rfl
    · -- No class has methods in a frame that was just made.
      intro k cls m hm hscope
      have hlt : m.scope < s.frames.size := hs.scope (k := k) ⟨hm.known, hm.found⟩
      rw [hscope] at hlt
      exact absurd hlt (Nat.lt_irrefl _)
  addInstance c hs :=
    have he := Store.Extends.addInstance _ _
    leads_dispatch he (hs.of_frames he rfl rfl fun f v hf hv =>
      absurd hf (Nat.not_le.mpr (Store.lt_of_bound? (Option.isSome_of_eq_some hv))))
  setField i x v hs :=
    have he := Store.Extends.setField _ i x v
    leads_dispatch he (hs.of_frames he rfl rfl fun f v hf hv =>
      absurd hf (Nat.not_le.mpr (Store.lt_of_bound? (Option.isSome_of_eq_some hv))))
  offersOwn hs hi hm := by
    obtain ⟨k, cls, hk, hhas⟩ := Store.hasMethod_of_method? hm
    exact ⟨k, cls, _, hhas, hi, hk⟩
  offersSuper hs hp hd hc hi hm := by
    obtain ⟨g, k, cls, m', hr, hsuper⟩ := dispatched_super hV hs hp hd hc hi
    obtain ⟨inst, hinst, hinh⟩ := hr.receives.inherits
    obtain ⟨k', cls', hk', hhas⟩ := Store.hasMethod_of_method? hm
    exact ⟨k', cls', inst, hhas, hinst, hinh.trans (.step hr.receives.method.known hsuper hk')⟩
  offered _ _ _ _ := True.intro
  bind hs ho := ⟨(bind_dispatch hs ho).1, (bind_dispatch hs ho).2.spots⟩
  bindValue hs ho :=
    have hb := bind_dispatch hs ho
    hb.1.trans (leads_dispatch_addFunction hb.1.good hb.2)

end Condition

end Lox
