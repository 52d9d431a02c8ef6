import Lox.Proofs.Running.Stepwise
import Lox.Proofs.Session.Trails
/-!
# Chains in a session

At every stop of every run of a session, the frames around a frame lead to that of the global
variables and the classes above a class come to an end, each of them older than the one before it.
So every search along them ends there, and a method is found in the nearest class that declares it.
-/

namespace Lox

variable {C : ClassDecl → Prop}

/-! ### What a founded store is like -/

/-- The frames `fs` lead from `f` outward to the frame of the global variables, from younger ones to
older ones, and what is looked for from `f` is looked for in all of them. -/
structure Store.Outward (s : Store) (f : FrameId) (fs : List FrameId) : Prop where
  chain : Chain s.enclosing? f fs
  older : fs.Pairwise (· > ·)
  globals : fs.getLast? = some globals
  ancestor : ∀ d, s.ancestor? d f = fs[d]?
  get : ∀ x, s.get? f x = fs.findSome? (s.bound? · x)
  assign : ∀ x v, s.assign? f x v = (fs.find? fun g => (s.bound? g x).isSome).map (s.define · x v)

/-- The classes `ks` lead from `c` upward, from younger ones to older ones. A method of `c` is the
last one with its name in the declaration of the first of them that has one. -/
structure Store.Upward (s : Store) (decl : ClassId → ClassDecl) (scope : ClassId → FrameId)
    (c : ClassId) (ks : List ClassId) : Prop where
  chain : Chain s.superclass? c ks
  older : ks.Pairwise (· > ·)
  method : ∀ x, s.method? c x =
    ks.findSome? fun k => ((decl k).method? x).map (⟨·, scope k, decide (x = initializerName)⟩)

/-- The class was made by the declaration, and its methods close over the frame `f`. -/
structure Class.MadeBy (cls : Class) (d : ClassDecl) (f : FrameId) : Prop where
  name : cls.name = d.name.name
  inherits : cls.superclass.isSome = d.superclass.isSome
  methods : ∀ x, cls.methods.find? x = (d.method? x).map (⟨·, f, decide (x = initializerName)⟩)

/-- All chains of the machine come to an end. The frame that is running, the frames of all
functions, bound methods among them, and those of all methods are there. -/
structure Machine.Chained (C : ClassDecl → Prop) (m : Machine) : Prop where
  frame : m.frame < m.store.frames.size
  functions : ∀ c ∈ m.store.functions, c.scope < m.store.frames.size
  methods : ∀ c x k, m.store.method? c x = some k → k.scope < m.store.frames.size
  instances : ∀ inst ∈ m.store.instances, inst.cls < m.store.classes.size
  frames : ∀ f < m.store.frames.size, ∃ fs, m.store.Outward f fs
  classes : ∃ (decl : ClassId → ClassDecl) (scope : ClassId → FrameId),
    (∀ (k : ClassId) cls, m.store.classes[k]? = some cls →
      C (decl k) ∧ cls.MadeBy (decl k) (scope k)) ∧
      ∀ c < m.store.classes.size, ∃ ks, m.store.Upward decl scope c ks

namespace Store.Founded

variable {s : Store}

theorem outward (h : s.Founded C) {f : FrameId} (hf : f < s.frames.size) :
    ∃ fs, s.Outward f fs := by
  have hlt := h.enclosing?_lt
  obtain ⟨fs, hchain⟩ := Chain.exists_of_lt hlt f
  have hnearest := nearest?_eq_find? hchain
  obtain ⟨g, hg, hlast, hend⟩ := hchain.getLast?_eq
  have hglobals : g = Lox.globals := by
    -- Every other frame has one around it.
    by_contra hne
    obtain ⟨e, -, he⟩ := h.links g (Nat.lt_of_le_of_lt (hchain.le_of_mem hlt hg) hf) hne
    rw [hend] at he
    cases he
  refine ⟨fs, hchain, hchain.pairwise hlt, hglobals ▸ hlast,
    ancestor?_eq_getElem? hchain, fun x => ?_,
    fun x v => ?_⟩
  · rw [Store.get?, hnearest, find?_bind_bound?]
  · rw [assign?, hnearest]

/-- The declarations that made the classes, and the frames of their methods. -/
theorem exists_declarations (h : s.Founded C) :
    ∃ (decl : ClassId → ClassDecl) (scope : ClassId → FrameId),
    ∀ (k : ClassId) cls, s.classes[k]? = some cls → C (decl k) ∧ cls.MadeBy (decl k) (scope k) := by
  have hone : ∀ k : ClassId, ∃ (d : ClassDecl) (f : FrameId), ∀ cls, s.classes[k]? = some cls →
      C d ∧ cls.MadeBy d f := by
    intro k
    cases hk : s.classes[k]? with
    | none => exact ⟨⟨⟨"", .point .start⟩, none, []⟩, 0, nofun⟩
    | some cls =>
      obtain ⟨d, f, hd, -, hinherits, hcls⟩ := (h.classes k cls hk).declared
      refine ⟨d, f, ?_⟩
      rintro _ ⟨⟩
      exact ⟨hd d List.mem_cons_self, by rw [hcls]; rfl, hinherits, fun x => by
        rw [hcls, d.find?_methods]⟩
  choose decl scope hdecl using hone
  exact ⟨decl, scope, hdecl⟩

private theorem upward (h : s.Founded C) {decl : ClassId → ClassDecl} {scope : ClassId → FrameId}
    (hmade : ∀ (k : ClassId) cls, s.classes[k]? = some cls →
      C (decl k) ∧ cls.MadeBy (decl k) (scope k))
    {c : ClassId} (hc : c < s.classes.size) : ∃ ks, s.Upward decl scope c ks := by
  have hlt := h.superclass?_lt
  obtain ⟨ks, hchain⟩ := Chain.exists_of_lt hlt c
  have hlen : ks.length ≤ s.classes.size := Nat.le_trans (hchain.length_le hlt) hc
  have hown : ∀ x, ∀ k ∈ ks,
      s.ownMethod? x k = ((decl k).method? x).map (⟨·, scope k, decide (x = initializerName)⟩) := by
    intro x k hk
    have hknown := Array.getElem?_eq_getElem (Nat.lt_of_le_of_lt (hchain.le_of_mem hlt hk) hc)
    rw [ownMethod?, hknown]
    exact (hmade k _ hknown).2.methods x
  refine ⟨ks, hchain, hchain.pairwise hlt, fun x => ?_⟩
  rw [Store.method?, methodIn?_eq_findSome? hchain x hlen]
  exact findSome?_congr (hown x)

end Store.Founded

theorem Machine.Founded.chained {m : Machine} (h : m.Founded C) : m.Chained C := by
  obtain ⟨decl, scope, hmade⟩ := h.store.exists_declarations
  exact ⟨h.frame, fun c hc => (h.store.functions c hc).scope,
    fun _ _ _ hm => (h.store.method? hm).scope,
    fun inst hi => (h.store.instances inst hi).cls, fun f hf =>
      h.store.outward hf, decl, scope, hmade,
    fun c hc => h.store.upward hmade hc⟩

/-! ### Sessions -/

namespace Session

variable {h : List (SourceFile × Analysis)} {s t : Session} {f : SourceFile} {fuel : Nat}
  {o : Outcome}

/-- The declarations of classes in the programs of a history. -/
def Declares (h : List (SourceFile × Analysis)) (d : ClassDecl) : Prop :=
  ∃ p ∈ h, d ∈ Stmt.classesAll p.2.program.body

/-- One more program declares more. -/
theorem founded_append (hs : s.machine.Founded (Declares h)) (h' : List (SourceFile × Analysis)) :
    s.machine.Founded (Declares (h' ++ h)) :=
  hs.imp fun _ ⟨p, hp, hd⟩ => ⟨p, List.mem_append_right _ hp, hd⟩

theorem founded_entry (hs : s.machine.Founded (Declares h)) :
    (s.entry f).Founded (Declares (s.accepted f ++ h)) :=
  ⟨(founded_append hs _).store, hs.frame⟩

theorem advances_trail (hs : s.machine.Founded (Declares h))
    (he : (Analysis.ofFile f s.nextId).errors.hasErrors = false) (fuel : Nat) :
    (Trail.start (s.entry f)).Advances (Declares (s.accepted f ++ h)) (s.trail fuel f).state := by
  refine (advances_traceAll (fun k hk => ?_) (founded_entry hs) fuel).state
  rw [accepted_eq he]
  exact ⟨_, List.mem_cons_self, hk⟩

/-- A run leads to a founded machine in which what was there before has kept its links. -/
theorem founded_run (hs : s.machine.Founded (Declares h)) (hr : s.run fuel f = some (o, t)) :
    t.machine.Founded (Declares (s.accepted f ++ h)) ∧ s.machine.store.Settles t.machine.store := by
  cases he : (Analysis.ofFile f s.nextId).errors.hasErrors with
  | true =>
    rw [run_eq, if_pos he] at hr
    cases hr
    exact ⟨founded_append hs _, .refl _⟩
  | false =>
    have hadvances := advances_trail hs he fuel
    rw [machine_of_run he hr]
    exact ⟨hadvances.founded, hadvances.settles⟩

theorem Reaches.founded (hs : Reaches h s) : s.machine.Founded (Declares h) := by
  induction hs with
  | initial output maxDepth clock => exact .initial _ output maxDepth clock
  | run _ hr ih => exact (founded_run ih hr).1

/-- The stops of a run come one after the other, the first of them in the machine
in which it starts. -/
theorem advances_stops (hs : s.machine.Founded (Declares h))
    (he : (Analysis.ofFile f s.nextId).errors.hasErrors = false) (fuel : Nat) :
    (∀ p ∈ s.stops fuel f, p.machine.Founded (Declares (s.accepted f ++ h)) ∧
      s.machine.store.Settles p.machine.store ∧
      p.machine.store.Settles (s.trail fuel f).state.machine.store) ∧
    (s.stops fuel f).Pairwise fun q p => p.machine.store.Settles q.machine.store := by
  have hadvances := advances_trail (f := f) hs he fuel
  obtain ⟨new, hnew, hordered, hbetween⟩ := hadvances.stops
  have hstops : s.stops fuel f = new ++ [⟨none, s.entry f⟩] := by
    rw [stops, he, if_neg (by decide), hnew]
    rfl
  rw [hstops]
  refine ⟨fun p hp => ?_, List.pairwise_append.mpr ⟨hordered.imp fun hp => Store.Steps.settles hp,
    List.pairwise_singleton _ _, fun q hq p hp => ?_⟩⟩
  · rcases List.mem_append.mp hp with hp | hp
    · obtain ⟨hfounded, hsince, huntil⟩ := hbetween p hp
      exact ⟨hfounded, Store.Steps.settles hsince, Store.Steps.settles huntil⟩
    · obtain rfl := List.mem_singleton.mp hp
      exact ⟨founded_entry hs, .refl _, hadvances.settles⟩
  · obtain rfl := List.mem_singleton.mp hp
    exact Store.Steps.settles (hbetween q hq).2.1

/-- In a session, and at all stops of its runs, the chains of frames and of classes come to
an end, and from one stop to any later one, as from before a run to after it, what there was
has kept its links. -/
theorem Reaches.well_founded_chains (hs : Reaches h s) :
    s.machine.Chained (Declares h) ∧
    ∀ (fuel : Nat) (f : SourceFile),
      (∀ p ∈ s.stops fuel f, p.machine.Chained (Declares (s.accepted f ++ h)) ∧
        s.machine.store.Settles p.machine.store) ∧
      ((s.stops fuel f).Pairwise fun q p => p.machine.store.Settles q.machine.store) ∧
      ∀ o t, s.run fuel f = some (o, t) → s.machine.store.Settles t.machine.store ∧
        ∀ p ∈ s.stops fuel f, p.machine.store.Settles t.machine.store := by
  have hfounded := hs.founded
  refine ⟨hfounded.chained, fun fuel f => ?_⟩
  cases he : (Analysis.ofFile f s.nextId).errors.hasErrors with
  | true =>
    have hnone : s.stops fuel f = [] := by rw [stops, if_pos he]
    rw [hnone]
    exact ⟨nofun, .nil, fun o t hr => ⟨(founded_run hfounded hr).2, nofun⟩⟩
  | false =>
    obtain ⟨hstops, hordered⟩ := advances_stops hfounded he fuel
    refine ⟨fun p hp => ⟨(hstops p hp).1.chained, (hstops p hp).2.1⟩, hordered, fun o t hr => ?_⟩
    rw [machine_of_run he hr]
    exact ⟨(advances_trail hfounded he fuel).settles, fun p hp => (hstops p hp).2.2⟩

/-- A class with two methods of one name, and another class that inherits from it. -/
def inheritingSource : SourceFile :=
  ⟨"inherit.lox",
    "class A \x7b m() \x7b return nil; \x7d m() \x7b\x7d \x7d class B < A \x7b\x7d B().m();"⟩

/-- Whether the second class inherits from the first and finds a method `m` with an empty body. -/
def findsLast (p : Stop) : Bool :=
  p.machine.store.superclass? 1 == some 0 &&
    (p.machine.store.method? 1 "m").any (·.decl.body.isEmpty)

/-- The second class inherits the last method of the first one. -/
theorem well_founded_chains_inheriting :
    ∃ p ∈ (Session.initial fun _ => 0).stops 40 inheritingSource,
      p.machine.Chained (Declares ((Session.initial fun _ => 0).accepted inheritingSource ++ [])) ∧
      p.machine.store.superclass? 1 = some 0 ∧
      (p.machine.store.method? 1 "m").any (·.decl.body.isEmpty) = true := by
  have hany : ((Session.initial fun _ => 0).stops 40 inheritingSource).any findsLast = true := by
    decide +kernel
  obtain ⟨p, hp, hfinds⟩ := List.any_eq_true.mp hany
  obtain ⟨hsuper, hmethod⟩ := Bool.and_eq_true_iff.mp hfinds
  obtain ⟨-, hruns⟩ :=
    Reaches.well_founded_chains (.initial .unlimited Machine.defaultMaxDepth fun _ => 0)
  exact ⟨p, hp, ((hruns 40 inheritingSource).1 p hp).1, eq_of_beq hsuper, hmethod⟩

end Session

end Lox
