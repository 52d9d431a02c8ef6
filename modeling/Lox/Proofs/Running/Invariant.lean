import Lox.Proofs.Running.Trail
import Lox.Proofs.Scoping.Spots
/-!
# Invariants of running programs

A condition on the store may have to do with the frames in which code runs and with what stands in
the code. It is an invariant when every operation of the evaluator keeps it, each under what is
known where the evaluator does it. These operations are few, and that they keep a condition is all
there is to show about a condition to have it at all times.
-/

namespace Lox

/-! ### Output -/

namespace Output

variable {o p q : Output}

/-- What is written in `o` is what comes first in `p`. -/
def Begins (o p : Output) : Prop := ∃ bytes, p.written = o.written ++ bytes

theorem Begins.refl (o : Output) : o.Begins o := ⟨.empty, ByteArray.append_empty.symm⟩

theorem Begins.trans (h : o.Begins p) (h' : p.Begins q) : o.Begins q := by
  obtain ⟨a, ha⟩ := h
  obtain ⟨b, hb⟩ := h'
  exact ⟨a ++ b, by rw [hb, ha, ByteArray.append_assoc]⟩

theorem begins_write (o : Output) (s : String) : o.Begins (o.write s).2 := by
  unfold write
  dsimp only
  split
  · exact ⟨_, rfl⟩
  · split <;> exact ⟨_, rfl⟩

/-- What was written after `o` is what was written up to `p`, and then the rest. -/
theorem Begins.since_eq (h : o.Begins p) (h' : p.Begins q) :
    q.since o.written.size = p.since o.written.size ++ q.since p.written.size := by
  obtain ⟨a, ha⟩ := h
  obtain ⟨b, hb⟩ := h'
  have hop : o.written.size ≤ p.written.size := by
    rw [ha, ByteArray.size_append]
    exact Nat.le_add_right _ _
  have hpq : p.written.size ≤ q.written.size := by
    rw [hb, ByteArray.size_append]
    exact Nat.le_add_right _ _
  rw [since, since, since, ByteArray.extract_eq_extract_append_extract p.written.size hop hpq]
  conv => lhs; lhs; rw [hb, ByteArray.extract_append_size_left]

end Output

/-! ### Conditions -/

/-- A condition on running programs. -/
structure Condition where
  /-- What is asked of the store. -/
  Good : Store → Prop
  /-- What is asked of a frame in which code runs. -/
  At : Store → FrameId → Prop
  /-- What is asked of a spot in code that runs in a frame. -/
  Fits : Store → FrameId → Spot → Prop
  /-- What is asked of a method and an instance to which it gets bound. -/
  Offers : Store → Closure → InstanceId → Prop
  /-- What is asked of a function that a statement declares. -/
  Allows : FunctionDecl → Prop
  distances : Distances

namespace Condition

variable (C : Condition)

/-- The store is good again, and what was known of frames and code is not lost. -/
structure Leads (s t : Store) : Prop where
  good : C.Good t
  frames : ∀ f, C.At s f → C.At t f
  spots : ∀ f p, C.Fits s f p → C.Fits t f p

theorem Leads.refl {s : Store} (h : C.Good s) : C.Leads s s := ⟨h, fun _ hf => hf, fun _ _ hp => hp⟩

theorem Leads.trans {C : Condition} {s t u : Store} (h : C.Leads s t) (h' : C.Leads t u) :
    C.Leads s u :=
  ⟨h'.good, fun f hf => h'.frames f (h.frames f hf), fun f p hp => h'.spots f p (h.spots f p hp)⟩

/-- Every operation of the evaluator keeps the condition. -/
structure Invariant : Prop where
  define {s f x} (v) : C.Good s → C.At s f → C.Fits s f (.here (.declaration x)) →
    C.Leads s (s.define f x.name v)
  assign {s f g t x e} (v) : C.Good s → C.Fits s f (.here (.expr (.assign t x e))) →
    (s.bound? g x.name).isSome → C.Leads s (s.define g x.name v)
  block {s f} : C.Good s → C.At s f → C.Leads s (s.addScope (some f)).2 ∧
    C.At (s.addScope (some f)).2 s.frames.size ∧
    ∀ p : Spot, C.Fits s f p.deeper → C.Fits (s.addScope (some f)).2 s.frames.size p
  function {s f d} : C.Good s → C.At s f → (∀ p ∈ FunctionDecl.spots d, C.Fits s f p) →
    (∀ e ∈ (Stmt.function d).functions, C.Allows e) → C.Leads s (s.addFunction ⟨d, f, false⟩).2
  functions {s : Store} {c : Closure} : C.Good s → c ∈ s.functions →
    ∀ e ∈ c.decl.functions, C.Allows e
  spots {s : Store} {c : Closure} : C.Good s → c ∈ s.functions →
    ∀ p ∈ c.decl.spots, C.Fits s c.scope p
  /-- The frame of a call. -/
  call {s : Store} {c : Closure} (vs) : C.Good s → (∀ p ∈ c.decl.spots, C.Fits s c.scope p) →
    C.Leads s (s.addFrame ⟨Run.bindParameters c.decl.parameters vs, some c.scope⟩).2 ∧
    C.At (s.addFrame ⟨Run.bindParameters c.decl.parameters vs, some c.scope⟩).2 s.frames.size ∧
    ∀ p ∈ Stmt.spotsAll c.decl.body,
      C.Fits (s.addFrame ⟨Run.bindParameters c.decl.parameters vs, some c.scope⟩).2 s.frames.size p
  /-- A class that does not inherit. -/
  plain {s f x ms} : C.Good s → C.At s f →
    (∀ p ∈ FunctionDecl.spotsAll ms, C.Fits s f (p.inMethod false)) →
    (∀ e ∈ FunctionDecl.functionsAll ms, C.Allows e) →
    C.Leads s (s.addClass ⟨x, none, Run.methodTable f ms⟩).2
  /-- The frame that holds `super`. -/
  parent {s f} (c) : C.Good s → C.At s f →
    C.Leads s (s.addFrame ⟨Table.empty.insert "super" (.cls c), some f⟩).2
  /-- A class that inherits, whose methods close over the frame that was just made. -/
  subclass {s f x ms} (c) : C.Good s → C.At s f →
    (∀ p ∈ FunctionDecl.spotsAll ms, C.Fits s f (p.inMethod true)) →
    (∀ e ∈ FunctionDecl.functionsAll ms, C.Allows e) →
    C.Leads (s.addFrame ⟨Table.empty.insert "super" (.cls c), some f⟩).2
      ((s.addFrame ⟨Table.empty.insert "super" (.cls c), some f⟩).2.addClass
        ⟨x, some c, Run.methodTable s.frames.size ms⟩).2
  addInstance {s} (c) : C.Good s → C.Leads s (s.addInstance ⟨c, .empty⟩).2
  setField {s} (i x v) : C.Good s → C.Leads s (s.setField i x v)
  /-- A method of the class of the instance. -/
  offersOwn {s i k x m} : C.Good s → s.instances[i]? = some k → s.method? k.cls x = some m →
    C.Offers s m i
  /-- A method that `super` names. -/
  offersSuper {s f t x d c i m} : C.Good s → C.Fits s f (.here (.expr (.super t x))) →
    C.distances.get? t.id = some (d + 1) → s.getAt? f (d + 1) "super" = some (.cls c) →
    s.getAt? f d "this" = some (.object i) → s.method? c x.name = some m → C.Offers s m i
  offered {s m i} : C.Good s → C.Offers s m i → ∀ e ∈ m.decl.functions, C.Allows e
  bind {s m i} : C.Good s → C.Offers s m i → C.Leads s (s.bind m i).2 ∧
    ∀ p ∈ m.decl.spots, C.Fits (s.bind m i).2 (s.bind m i).1.scope p
  bindValue {s m i} : C.Good s → C.Offers s m i → C.Leads s (s.bindValue m i).2

/-- Nothing is asked. -/
def trivial (d : Distances) : Condition :=
  ⟨fun _ => True, fun _ _ => True, fun _ _ _ => True, fun _ _ _ => True, fun _ => True, d⟩

theorem leads_trivial (d : Distances) (s t : Store) : (trivial d).Leads s t :=
  ⟨True.intro, fun _ _ => True.intro, fun _ _ _ => True.intro⟩

theorem invariant_trivial (d : Distances) : (trivial d).Invariant where
  define _ _ _ _ := leads_trivial d _ _
  assign _ _ _ _ := leads_trivial d _ _
  block _ _ := ⟨leads_trivial d _ _, True.intro, fun _ _ => True.intro⟩
  function _ _ _ _ := leads_trivial d _ _
  functions _ _ _ _ := True.intro
  spots _ _ _ _ := True.intro
  call _ _ _ := ⟨leads_trivial d _ _, True.intro, fun _ _ => True.intro⟩
  plain _ _ _ _ := leads_trivial d _ _
  parent _ _ _ := leads_trivial d _ _
  subclass _ _ _ _ _ := leads_trivial d _ _
  addInstance _ _ := leads_trivial d _ _
  setField _ _ _ _ := leads_trivial d _ _
  offersOwn _ _ _ := True.intro
  offersSuper _ _ _ _ _ _ := True.intro
  offered _ _ _ _ := True.intro
  bind _ _ := ⟨leads_trivial d _ _, fun _ _ => True.intro⟩
  bindValue _ _ := leads_trivial d _ _

/-! ### Machines and trails -/

/-- What holds of the machine at all times; `b` bounds the depth of its calls. -/
structure Ready (b : Nat) (m : Machine) : Prop where
  good : C.Good m.store
  frame : C.At m.store m.frame
  distances : m.distances = C.distances
  depth : m.depth ≤ b
  maxDepth : m.maxDepth ≤ b

/-- What holds at a stop. -/
structure Passes (b : Nat) (p : Stop) : Prop where
  ready : C.Ready b p.machine
  node : ∀ e, p.event = some (.node e) → C.Fits p.machine.store p.machine.frame (.here (.expr e))

/-- What a piece of a run keeps. -/
structure Moves (b : Nat) (m n : Machine) : Prop where
  ready : C.Ready b n
  leads : C.Leads m.store n.store
  frame : n.frame = m.frame
  depth : n.depth = m.depth
  maxDepth : n.maxDepth = m.maxDepth
  output : m.output.Begins n.output

structure Sound (b : Nat) (t : Trail) : Prop where
  ready : C.Ready b t.machine
  stops : ∀ p ∈ t.stops, C.Passes b p

variable {C} {b : Nat} {m n o : Machine} {t : Trail}

/-- A machine is ready to run when it gets distances. -/
theorem Ready.addDistances {d : Distances} (hg : C.Good m.store) (ha : C.At m.store m.frame)
    (hd : (m.addDistances d).distances = C.distances) :
    C.Ready (max m.depth m.maxDepth) (m.addDistances d) :=
  ⟨hg, ha, hd, Nat.le_max_left _ _, Nat.le_max_right _ _⟩

theorem Moves.refl (h : C.Ready b m) : C.Moves b m m := ⟨h, .refl C h.good, rfl, rfl, rfl, .refl _⟩

theorem Moves.trans (h : C.Moves b m n) (h' : C.Moves b n o) : C.Moves b m o :=
  ⟨h'.ready, h.leads.trans h'.leads, h'.frame.trans h.frame, h'.depth.trans h.depth,
    h'.maxDepth.trans h.maxDepth, h.output.trans h'.output⟩

/-- Only the store changes. -/
theorem Moves.update (h : C.Ready b m) {s : Store} (hs : C.Leads m.store s) :
    C.Moves b m { m with store := s } :=
  ⟨⟨hs.good, hs.frames _ h.frame, h.distances, h.depth, h.maxDepth⟩, hs, rfl, rfl, rfl, .refl _⟩

theorem Sound.go (ht : C.Sound b t) (hm : C.Ready b m) : C.Sound b (t.go m) where
  ready := hm
  stops p hp := by
    rcases List.mem_cons.mp hp with rfl | hp
    · exact ⟨hm, fun e he => by cases he⟩
    · exact ht.stops p hp

theorem Sound.stop (ht : C.Sound b t) {e : Event}
    (he : ∀ n, e = .node n → C.Fits t.machine.store t.machine.frame (.here (.expr n))) :
    C.Sound b (t.stop e) where
  ready := ht.ready
  stops p hp := by
    rcases List.mem_cons.mp hp with rfl | hp
    · exact ⟨ht.ready, fun n hn => he n (Option.some.inj hn)⟩
    · exact ht.stops p hp

theorem Sound.start (hm : C.Ready b m) : C.Sound b (.start m) where
  ready := hm
  stops p hp := by
    rw [List.mem_singleton.mp hp]
    exact ⟨hm, fun e he => by cases he⟩

end Condition

end Lox
