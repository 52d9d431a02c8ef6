import Lox.Proofs.Running.Dispatch
import Lox.Proofs.Session.Trails
/-!
# Super dispatch

At all times, in all runs of a session, the methods of a class that inherits close over a frame that
binds `super` to its superclass, and a bound method has an instance of its class, or of one that
inherits from it, for `this`. So where `super` stands decides in which class the method is looked
up, whatever the class of the receiver is, and the method is bound to the same receiver.
-/

namespace Lox

/-- Whether the function is the method with `this` bound in a frame of its own. -/
structure Closure.Copies (s : Store) (m c : Closure) : Prop where
  same : c = { m with scope := c.scope }
  enclosing : s.enclosing? c.scope = some m.scope
  bound : (s.bound? c.scope "this").isSome

/-- What holds of classes, methods and receivers at all times. -/
structure Store.Methodical (s : Store) : Prop where
  /-- The methods of a class that inherits close over a frame that binds `super`
  to its superclass. -/
  parent {k cls m c} : s.HasMethod k cls m → cls.superclass = some c →
    s.bound? m.scope "super" = some (.cls c)
  /-- A frame that binds `this` is one in which a method of some class is bound. -/
  receiver {f v} : s.bound? f "this" = some v → ∃ i k cls m, v = .object i ∧ s.Receives f i k cls m
  /-- The receiver of a bound method inherits from the class of the method, or, if that class does
  not inherit itself, from a class that has the very same method. -/
  bound {k cls m} : s.HasMethod k cls m → ∀ c ∈ s.functions, m.Copies s c →
    ∃ i k' cls', s.Receives c.scope i k' cls' m ∧ (cls.superclass.isSome → k' = k)

/-- How `super` with the method name `x` is evaluated in the machine. Its distance is `d + 1`; the
frame `g`, at the distance `d`, is that of a receiver `i` of the method `m` of the class `k`;
`super` stands in the declaration of that method, and not in a class inside of it; `c` is the
superclass of `k`. -/
structure Machine.Dispatches (n : Machine) (t : Site) (x : Ident) (d : Nat) (g : FrameId)
    (i : InstanceId) (k : ClassId) (cls : Class) (m : Closure) (c : ClassId) : Prop where
  distance : n.distances.get? t.id = some (d + 1)
  received : (Spot.here (.expr (.super t x))).Received n.store n.frame d g i k cls m
  superclass : cls.superclass = some c
  /-- No other class has methods that close over that frame. -/
  only {k' cls' m'} : n.store.HasMethod k' cls' m' → m'.scope = m.scope → k' = k
  this : n.store.getAt? n.frame d "this" = some (.object i)
  super : n.store.getAt? n.frame (d + 1) "super" = some (.cls c)
  result : Run.superMethod t x n = (n.store.method? c x.name).elim
    (.fault ⟨.undefinedProperty x.name, x.span⟩ n) fun f => Run.update (·.bindValue f i) n

variable {V : Visit → Prop} {s : Store} {h : List (SourceFile × Analysis)}

theorem Store.Dispatches.methodical (hs : s.Dispatches V) : s.Methodical where
  parent hm hc := (hs.parent hm).trans (congrArg (Option.map Value.cls) hc)
  receiver hv := hs.receivers _ _ hv
  bound {k cls m} hm c hc hcopy := by
    obtain ⟨i, k', cls', m', hr, hsame⟩ := (hs.functions c hc).bound hcopy.bound
    have hscope : m'.scope = m.scope := Option.some.inj (hr.enclosing.symm.trans hcopy.enclosing)
    have hmm : m' = m := by
      rw [hcopy.same] at hsame
      obtain ⟨decl, scope, init⟩ := m
      obtain ⟨decl', scope', init'⟩ := m'
      cases hsame
      cases hscope
      rfl
    subst hmm
    exact ⟨i, k', cls', hr, fun hinh => hs.unique hm hr.method rfl hinh⟩

theorem Store.Dispatches.imp {V' : Visit → Prop} (hs : s.Dispatches V) (hV : ∀ v, V v → V' v) :
    s.Dispatches V' := by
  have hat : ∀ {v : Sight} {n}, v.SuperAt V n →
      v.SuperAt V' n := fun ⟨c, hc, hn⟩ => ⟨c, hV _ hc, hn⟩
  refine ⟨⟨hs.scope, hs.parent, fun hm p hp => ?_, hs.unique⟩, fun c hc => ?_, hs.receivers⟩
  · have hspot := hs.spots hm p hp
    exact ⟨hspot.proper, fun hp => ⟨(hspot.inherits hp).1, hat (hspot.inherits hp).2⟩⟩
  · have hfun := hs.functions c hc
    refine ⟨hfun.scope, fun p hp => ?_, hfun.bound⟩
    have hspot := hfun.spots p hp
    refine ⟨hspot.proper, fun hs hside => ?_, fun hs b hside => ?_⟩
    · obtain ⟨d, g, i, k, cls, m, hr, hv⟩ := hspot.here hs hside
      exact ⟨d, g, i, k, cls, m, hr, hat hv⟩
    · exact ⟨(hspot.method hs b hside).1, hat (hspot.method hs b hside).2⟩

/-- In an accepted source `super` stands only in methods of classes that inherit. -/
theorem Analysis.dispatched_spots {f : SourceFile} {firstId : Nat}
    (he : (ofFile f firstId).errors.hasErrors = false) (hV : ∀ v ∈ (ofFile f firstId).visits, V v)
    {p : Spot} (hp : p ∈ Stmt.spotsAll (ofFile f firstId).program.body) (g : FrameId) :
    p.Dispatched V s g := by
  have hsound := Analysis.sound_visits he
  have hvisited := Stmt.visited_of_mem_spotsAll (w := .start) (n := none) (k := .none) ⟨rfl, rfl⟩
    (ofFile f firstId).program.body (fun v hv => (hsound v hv).toFaultless) p hp
  refine ⟨?_, fun hs hside => ?_, fun hs b hside => ?_⟩
  · have hmem : p.sight ∈ Stmt.sightsAll (ofFile f firstId).program.body :=
      Stmt.map_sight_spotsAll _ ▸ List.mem_map_of_mem hp
    rw [← Analysis.map_sight_visits] at hmem
    obtain ⟨v, hv, hsight⟩ := List.mem_map.mp hmem
    exact hsight ▸ (hsound v hv).proper
  all_goals
    obtain ⟨c, hc, hstands⟩ := hvisited hs
    obtain ⟨t, x, hsuper⟩ := hs
    have herr := (hsound _ hc).errors_eq
    rw [Spot.Stands, hside] at hstands
    rw [hsuper] at herr
  · simp [Visit.errors, hstands.kind] at herr
  · cases b with
    | true => exact ⟨rfl, c, hV _ hc, hstands.nearest⟩
    | false => simp [Visit.errors, show c.classKind = .plain from hstands] at herr

namespace Session

variable {t : Session} {f : SourceFile} {fuel : Nat} {o : Outcome}

/-- What holds between the runs of a session. -/
structure Dispatching (h : List (SourceFile × Analysis)) (s : Session) : Prop where
  sound : s.Sound h
  store : s.machine.store.Dispatches (Visited h)
  frame : (Condition.dispatch (Visited h) s.machine.distances).At s.machine.store s.machine.frame

variable {s : Session}

private theorem dispatching_initial (output : Output) (maxDepth : Nat) (clock : Nat → Float) :
    Dispatching [] ⟨.initial output maxDepth clock, 0, 0⟩ := by
  have hframe : ∀ x, x ≠ "clock" →
      ∀ f, (Machine.initial output maxDepth clock).store.bound? f x = none := by
    intro x hx f
    change (Store.addFrame _ _).2.bound? f x = none
    rw [Store.bound?_addFrame]
    split
    · rw [Table.find?_insert, if_neg (Ne.symm hx)]
      rfl
    · rfl
  have hclass : ∀ {k cls m}, ¬ (Machine.initial output maxDepth clock).store.HasMethod k cls m := by
    rintro k cls m ⟨hk, -⟩
    cases hk
  refine ⟨sound_initial output maxDepth clock, ⟨⟨?_, ?_, ?_, ?_⟩, nofun, fun f v hv => ?_⟩,
    Nat.zero_lt_one, ?_, ?_⟩
  · exact fun hm => absurd hm hclass
  · exact fun hm => absurd hm hclass
  · exact fun hm => absurd hm hclass
  · exact fun hm => absurd hm hclass
  · rw [hframe "this" (by decide)] at hv
    cases hv
  · exact hframe "this" (by decide) _
  · exact hframe "super" (by decide) _

/-- A run of a source keeps what holds between runs, and at all its stops the same holds. -/
theorem Dispatching.follows (hs : s.Dispatching h)
    (he : (Analysis.ofFile f s.nextId).errors.hasErrors = false) (fuel : Nat) :
    (Condition.dispatch (Visited (s.accepted f ++ h)) (s.entry f).distances).Follows
      (max s.machine.depth s.machine.maxDepth) (.start (s.entry f)) (s.trail fuel f).state := by
  have hh := hs.sound.history.add he
  rw [accepted_eq he]
  refine Session.follows (Condition.invariant_dispatch hh.visits) rfl ?_ hs.frame (fun p hp => ?_)
    (fun _ _ => trivial) fuel
  · exact hs.store.imp fun v ⟨p, hp, hv⟩ => ⟨p, List.mem_cons_of_mem _ hp, hv⟩
  · exact Analysis.dispatched_spots he (fun v hv => ⟨_, List.mem_cons_self, hv⟩) hp _

theorem Dispatching.run (hs : s.Dispatching h) (hr : s.run fuel f = some (o, t)) :
    t.Dispatching (s.accepted f ++ h) := by
  have hsound := hs.sound.run hr
  cases he : (Analysis.ofFile f s.nextId).errors.hasErrors with
  | true =>
    rw [run_eq, he] at hr
    cases hr
    have ha : s.accepted f = [] := by simp [accepted, he]
    rw [ha] at hsound ⊢
    exact ⟨hsound, hs.store, hs.frame⟩
  | false =>
    have hmoves := (hs.follows he fuel).moves
    rw [machine_of_run he hr] at hsound ⊢
    refine ⟨hsound, hmoves.ready.good, ?_⟩
    have hframe := hmoves.ready.frame
    exact hframe

theorem Reaches.dispatching (hs : Reaches h s) : s.Dispatching h := by
  induction hs with
  | initial output maxDepth clock => exact dispatching_initial output maxDepth clock
  | run _ hr ih => exact ih.run hr

/-- In every session that can be reached, and at every stop of every run from there, the methods of
a class that inherits close over its superclass and bound methods have receivers of their classes;
and wherever `super` is evaluated, the method is looked up in the superclass of the class in which
`super` stands, and is bound to what `this` is there. -/
theorem Reaches.super_dispatch (hs : Reaches h s) :
    s.machine.store.Methodical ∧ ∀ (fuel : Nat) (f : SourceFile), ∀ p ∈ s.stops fuel f,
      p.machine.store.Methodical ∧ ∀ t x, p.event = some (.node (.super t x)) →
        ∃ d g i k cls m c, p.machine.Dispatches t x d g i k cls m c ∧
          ∃ u, Visited (s.accepted f ++ h) ⟨.expr (.super t x), u⟩ ∧
            u.nearest? "this" = some d := by
  have hd := hs.dispatching
  refine ⟨hd.store.methodical, fun fuel f p hp => ?_⟩
  obtain ⟨he, hp⟩ := mem_stops hp
  have hpass := (hd.follows he fuel).sound.stops p hp
  have hgood := hpass.ready.good
  refine ⟨hgood.methodical, fun t x hx => ?_⟩
  have hh :
      HistorySound (s.accepted f ++ h) (s.entry f).distances
        (Analysis.ofFile f s.nextId).nextId := by
    rw [accepted_eq he]
    exact hd.sound.history.add he
  obtain ⟨d, g, i, k, cls, m, hr, u, hu, hn⟩ := (hpass.node _ hx).here ⟨t, x, rfl⟩ rfl
  obtain ⟨c, hc⟩ := Option.isSome_iff_exists.mp hr.inherits
  have hdist : p.machine.distances.get? t.id = some (d + 1) := by
    rw [hpass.ready.distances]
    exact ((hh.visits _ hu).recorded t.id rfl).trans hn
  have hthis : p.machine.store.getAt? p.machine.frame d "this" = some (.object i) := by
    rw [Store.getAt?, hr.ancestor]
    exact hr.receives.receiver
  have hsuper : p.machine.store.getAt? p.machine.frame (d + 1) "super" = some (.cls c) := by
    rw [Store.getAt?, Store.ancestor?_succ hr.ancestor, hr.receives.enclosing]
    exact (hgood.parent hr.receives.method).trans (congrArg (Option.map Value.cls) hc)
  refine ⟨d, g, i, k, cls, m, c, ⟨hdist, hr, hc, fun hm hscope => ?_, hthis, hsuper, ?_⟩, u, hu, ?_⟩
  · exact hgood.unique hr.receives.method hm hscope hr.inherits
  · exact Run.superMethod_eq hdist hsuper hthis
  · -- The walk found `this` one scope before `super`, which is the distance the machine goes.
    obtain ⟨-, -, e, he, hthis⟩ := (hh.visits _ hu).inScope
    rw [hn] at he
    obtain rfl := Nat.succ.inj (Option.some.inj he)
    exact hthis

/-- A function that declares a class again and again, each time with another superclass. -/
def mixinSource : SourceFile :=
  ⟨"mixin.lox", "class A { m() {} } class B { m() {} } " ++
    "fun mix(S) { class C < S { m() { super.m(); } } return C; } mix(A)().m(); mix(B)().m();"⟩

/-- Whether `super` is evaluated at the stop while it stands for the class `c`. -/
def superIn (c : ClassId) (p : Stop) : Bool :=
  match p.event with
  | some (.node (.super t _)) =>
    match (p.machine.distances.get? t.id).bind
      (p.machine.store.getAt? p.machine.frame · "super") with
    | some (.cls k) => k == c
    | _ => false
  | _ => false

/-- At one of the stops a `super` is evaluated that stands for the class `c`. -/
def DispatchedIn (stops : List Stop) (c : ClassId) : Prop :=
  ∃ p ∈ stops, ∃ t x d g i k cls m, p.event = some (.node (.super t x)) ∧
  p.machine.Dispatches t x d g i k cls m c

/-- The one `super` of the program is evaluated with each of the two superclasses. -/
theorem super_dispatch_mixin : DispatchedIn ((Session.initial fun _ => 0).stops 80 mixinSource) 0 ∧
    DispatchedIn ((Session.initial fun _ => 0).stops 80 mixinSource) 1 := by
  have hany :
      ∀ c < 2, ((Session.initial fun _ => 0).stops 80 mixinSource).any (superIn c) = true := by
    decide +kernel
  have hall : ∀ c < 2, DispatchedIn ((Session.initial fun _ => 0).stops 80 mixinSource) c := by
    intro c hc
    obtain ⟨p, hp, hsuper⟩ := List.any_eq_true.mp (hany c hc)
    unfold superIn at hsuper
    split at hsuper
    · rename_i t x he
      obtain ⟨d, g, i, k, cls, m, c', hd, -⟩ :=
        ((Reaches.super_dispatch (.initial _ _ _)).2 80 mixinSource p hp).2 t x he
      rw [hd.distance, Option.bind_some, hd.super] at hsuper
      obtain rfl := eq_of_beq hsuper
      exact ⟨p, hp, t, x, d, g, i, k, cls, m, he, hd⟩
    · cases hsuper
  exact ⟨hall 0 (by decide), hall 1 (by decide)⟩

end Session

end Lox
