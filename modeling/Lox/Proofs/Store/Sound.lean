import Lox.Proofs.Store.Covers
/-!
# Sound stores

In a sound store every function and every method was declared in frames that belong to the scopes in
which its body was visited. Only instances are bound to `this`, and only classes to `super`.
-/

namespace Lox

variable {V : Visit → Prop}

/-- A function whose body was visited, with the visits in `V`, in scopes that its frames cover. -/
def Closure.Visited (V : Visit → Prop) (s : Store) (c : Closure) (inner : List Scope → List Scope) :
    Prop :=
  ∃ w kind cs, w.scopes = inner cs ∧ s.Covers c.scope cs ∧ ∀ v ∈ c.decl.visits w kind, V v

/-- A function that can be called. An initializer can give back its instance. -/
structure Closure.Sound (V : Visit → Prop) (s : Store) (c : Closure) : Prop where
  visited : c.Visited V s id
  receiver : c.isInitializer = true → (s.bound? c.scope "this").isSome

/-- A method that is not bound yet: a scope with `this` lies between its frame and its body. -/
def Closure.Method (V : Visit → Prop) (s : Store) (c : Closure) : Prop :=
  c.Visited V s (Table.empty.insert "this" true :: ·)

namespace Store

structure Sound (V : Visit → Prop) (s : Store) : Prop where
  size : globals < s.frames.size
  root : s.enclosing? globals = none
  receiver : ∀ f v, s.bound? f "this" = some v → ∃ i, v = .object i
  parent : ∀ f v, s.bound? f "super" = some v → ∃ c, v = .cls c
  functions : ∀ c ∈ s.functions, c.Sound V s
  methods : ∀ c ∈ s.classes, ∀ x m, c.methods.find? x = some m → m.Method V s

end Store

variable {s t : Store} {c m : Closure} {K : FrameId → Prop}

theorem Closure.Visited.mono {inner : List Scope → List Scope} (h : c.Visited V s inner)
    (hg : Store.Grows K s t) : c.Visited V t inner := by
  obtain ⟨w, kind, cs, hw, hc, hv⟩ := h
  exact ⟨w, kind, cs, hw, hc.mono hg, hv⟩

theorem Closure.Sound.mono (h : c.Sound V s) (hg : Store.Grows K s t) : c.Sound V t :=
  ⟨h.visited.mono hg, fun hi => hg.bound _ _ (h.receiver hi)⟩

namespace Store.Sound

/-- What is asked of functions and methods holds of those that were there before. -/
theorem of_grows (h : s.Sound V) (hg : Grows K s t)
    (hr : ∀ f v, t.bound? f "this" = some v → ∃ i, v = .object i)
    (hp : ∀ f v, t.bound? f "super" = some v → ∃ c, v = .cls c)
    (hf : ∀ c ∈ t.functions, c ∈ s.functions ∨ c.Sound V t)
    (hm : ∀ c ∈ t.classes, c ∈ s.classes ∨ ∀ x m, c.methods.find? x = some m → m.Method V t) :
    t.Sound V where
  size := Nat.lt_of_lt_of_le h.size hg.size
  root := (hg.enclosing _ h.size).trans h.root
  receiver := hr
  parent := hp
  functions c hc := (hf c hc).elim (fun hc => (h.functions c hc).mono hg) id
  methods c hc := (hm c hc).elim (fun hc x m hx => (h.methods c hc x m hx).mono hg) id

/-- Instances do not matter. -/
theorem of_eq (h : s.Sound V) (hf : t.frames = s.frames) (hfn : t.functions = s.functions)
    (hc : t.classes = s.classes) : t.Sound V := by
  have hb : ∀ f x, t.bound? f x = s.bound? f x := fun f x => by rw [bound?, bound?, hf]
  refine h.of_grows (.of_frames_eq (K := fun _ => True) hf) ?_ ?_ ?_ ?_
  · exact fun f v hv => h.receiver f v (hb f _ ▸ hv)
  · exact fun f v hv => h.parent f v (hb f _ ▸ hv)
  · exact fun c hc => .inl (hfn ▸ hc)
  · exact fun c hcl => .inl (hc ▸ hcl)

theorem addFrame (h : s.Sound V) (fr : Frame)
    (hr : ∀ v, fr.bindings.find? "this" = some v → ∃ i, v = .object i)
    (hp : ∀ v, fr.bindings.find? "super" = some v → ∃ c, v = .cls c) :
    (s.addFrame fr).2.Sound V := by
  refine h.of_grows (.addFrame (K := fun _ => True) s fr) ?_ ?_
    (fun c hc => .inl hc) fun c hc => .inl hc
  · intro f v hv
    rw [bound?_addFrame] at hv
    split at hv
    · exact hr v hv
    · exact h.receiver f v hv
  · intro f v hv
    rw [bound?_addFrame] at hv
    split at hv
    · exact hp v hv
    · exact h.parent f v hv

theorem define (h : s.Sound V) {x : String} (hx : Plain x) (f : FrameId) (v : Value) :
    (s.define f x v).Sound V := by
  refine h.of_grows (.define s f x v) ?_ ?_ (fun c hc => .inl hc) fun c hc => .inl hc
  · intro g w hw
    rw [bound?_define, if_neg fun hh => hx.1 hh.2.1] at hw
    exact h.receiver g w hw
  · intro g w hw
    rw [bound?_define, if_neg fun hh => hx.2 hh.2.1] at hw
    exact h.parent g w hw

theorem addFunction (h : s.Sound V) (hc : c.Sound V s) : (s.addFunction c).2.Sound V := by
  have hg : Grows (fun _ => True) s (s.addFunction c).2 := .of_frames_eq rfl
  refine h.of_grows hg h.receiver h.parent (fun d hd => ?_) fun d hd => .inl hd
  rcases Array.mem_push.mp hd with hd | rfl
  · exact .inl hd
  · exact .inr (hc.mono hg)

theorem addClass (h : s.Sound V) {cls : Class}
    (hc : ∀ x m, cls.methods.find? x = some m → m.Method V s) : (s.addClass cls).2.Sound V := by
  have hg : Grows (fun _ => True) s (s.addClass cls).2 := .of_frames_eq rfl
  apply h.of_grows hg h.receiver h.parent (fun d hd => .inl hd)
  intro d hd
  rcases Array.mem_push.mp hd with hd | rfl
  · exact .inl hd
  · exact .inr fun x m hx => (hc x m hx).mono hg

theorem addInstance (h : s.Sound V) (i : Instance) : (s.addInstance i).2.Sound V :=
  h.of_eq rfl rfl rfl

theorem setField (h : s.Sound V) (i : InstanceId) (x : String) (v : Value) :
    (s.setField i x v).Sound V :=
  h.of_eq rfl rfl rfl

/-! ### Methods -/

theorem methodIn? (h : s.Sound V) {x : String} (n : Nat) {c : ClassId}
    (hm : s.methodIn? x n c = some m) : m.Method V s := by
  induction n generalizing c with
  | zero => cases hm
  | succ n ih =>
    unfold Store.methodIn? at hm
    split at hm
    · cases hm
    · rename_i cls hc
      split at hm
      · rename_i d hd
        cases hm
        exact h.methods cls (Array.mem_of_getElem? hc) x m hd
      · obtain ⟨p, -, hp⟩ := Option.bind_eq_some_iff.mp hm
        exact ih hp

theorem method? (h : s.Sound V) {x : String} {c : ClassId} (hm : s.method? c x = some m) :
    m.Method V s := h.methodIn? _ hm

theorem property? (h : s.Sound V) {x : String} {i : InstanceId}
    (hm : s.property? i x = some (.method m)) : m.Method V s := by
  unfold Store.property? at hm
  split at hm
  · cases hm
  · split at hm
    · cases hm
    · obtain ⟨d, hd, hdm⟩ := Option.map_eq_some_iff.mp hm
      cases hdm
      exact h.method? hd

/-- A method that is bound can be called. -/
theorem bind (h : s.Sound V) (hm : m.Method V s) (i : InstanceId) :
    (s.bind m i).2.Sound V ∧ (s.bind m i).1.Sound V (s.bind m i).2 := by
  have hs : (s.bind m i).2.Sound V := by
    refine h.addFrame _ (fun v hv => ?_) fun v hv => ?_
    · rw [Table.find?_insert_self] at hv
      exact ⟨i, (Option.some.inj hv).symm⟩
    · rw [Table.find?_insert, if_neg (by decide)] at hv
      cases hv
  obtain ⟨w, kind, cs, hw, hc, hv⟩ := hm
  refine ⟨hs, ⟨w, kind, _, hw, ?_, hv⟩, fun _ => ?_⟩
  · refine (Mirrors.addFrame hc fun x => ?_).covers
    rw [Table.find?_insert, Table.find?_insert]
    split <;> simp
  · exact (congrArg Option.isSome (bound?_addFrame s _ s.frames.size "this")).trans (by simp)

theorem bindValue (h : s.Sound V) (hm : m.Method V s) (i : InstanceId) :
    (s.bindValue m i).2.Sound V := by
  obtain ⟨hs, hc⟩ := h.bind hm i
  exact hs.addFunction hc

end Store.Sound

theorem Store.Grows.bind (s : Store) (m : Closure) (i : InstanceId) :
    Store.Grows K s (s.bind m i).2 :=
  .addFrame s _

theorem Store.Grows.bindValue (s : Store) (m : Closure) (i : InstanceId) :
    Store.Grows K s (s.bindValue m i).2 :=
  (Store.Grows.bind s m i).trans (.of_frames_eq rfl)

end Lox
