import Lox.Proofs.Session.Reach
/-!
# Reading variables

Wherever a running program reads a variable, `this` or `super`, the frames belong to the scopes in
which the read was visited, so what has a distance is found at it. This holds for all runs of a
session, also in functions that were declared by earlier runs.
-/

namespace Lox

/-! ### What is found at a distance -/

/-- The nearest scope that holds a name lies at its distance. -/
theorem Context.exists_scope {c : Context} {x : String} {d : Nat} (h : c.nearest? x = some d) :
    ∃ s, c.scopes[d]? = some s ∧ s.find? x = c.status? x := by
  obtain ⟨ss, k, l⟩ := c
  induction ss generalizing d with
  | nil => cases h
  | cons s ss ih =>
    rw [nearest?_cons] at h
    rw [status?_cons]
    by_cases hs : s.contains x = true
    · rw [if_pos hs] at h
      obtain rfl := Option.some.inj h
      refine ⟨s, rfl, ?_⟩
      obtain ⟨b, hb⟩ := Option.isSome_iff_exists.mp hs
      rw [hb]
      rfl
    · rw [if_neg hs] at h
      obtain ⟨e, he, rfl⟩ := Option.map_eq_some_iff.mp h
      obtain ⟨t, ht, hx⟩ := ih he
      refine ⟨t, ht, ?_⟩
      have hn : s.find? x = none := by simpa [Table.contains] using hs
      rw [hn, hx]
      rfl

variable {s : Store} {f : FrameId} {c : Context} {x : String} {d : Nat}

/-- A name that its nearest scope holds as defined is bound at its distance. -/
theorem Store.Covers.getAt?_nearest (h : s.Covers f c.scopes) (hd : c.nearest? x = some d)
    (hx : c.status? x = some true) : (s.getAt? f d x).isSome := by
  obtain ⟨t, ht, htx⟩ := Context.exists_scope hd
  exact h.getAt? ht (htx.trans hx)

/-! ### Reads -/

/-- Whether the frames of a moment belong to the scopes of a stop: the chain goes on to the
global variables in as many links as there are scopes, and what a scope holds as defined is
bound in its frame. -/
structure Moment.Covers (m : Moment) (c : Context) : Prop where
  links : m.machine.store.ancestor? c.scopes.length m.machine.frame = some globals
  root : m.machine.store.enclosing? globals = none
  names : ∀ (i : Nat) (t : Scope) (x : String), c.scopes[i]? = some t → t.find? x = some true →
    (m.machine.store.getAt? m.machine.frame i x).isSome

/-- How reads end: a variable or `this` with a distance is found there, a variable that is not found
is not global either, and `super` fails only for want of the method. -/
def Expr.Reads (m : Machine) : Expr → Prop
  | .var s x =>
    (∀ d, m.distances.get? s.id = some d → ∃ v, m.store.getAt? m.frame d x.name = some v ∧
      Run.lookUp s.id x.name x.span m = .done v m) ∧
    ∀ e n, Run.lookUp s.id x.name x.span m = .fault e n →
      e = ⟨.undefinedVariable x.name, x.span⟩ ∧ m.distances.get? s.id = none ∧
        m.store.bound? globals x.name = none
  | .this s => ∃ d v, m.distances.get? s.id = some d ∧ m.store.getAt? m.frame d "this" = some v ∧
      Run.lookUp s.id "this" s.span m = .done v m
  | .super s x =>
    ∀ e n, Run.superMethod s x m = .fault e n → e = ⟨.undefinedProperty x.name, x.span⟩
  | _ => True

theorem Run.lookUp_of_distance {m : Machine} {id : Nat} {v : Value}
    (hd : m.distances.get? id = some d) (hv : m.store.getAt? m.frame d x = some v) (span : Span) :
    Run.lookUp id x span m = .done v m := by
  rw [Run.lookUp_eq, Run.valueOf?, hd]
  dsimp only
  rw [hv]
  rfl

private theorem Run.lookUp_fault {m n : Machine} {id : Nat} {span : Span} {e : Fault}
    (h : Run.lookUp id x span m = .fault e n) :
    e = ⟨.undefinedVariable x, span⟩ ∧ Run.valueOf? m id x = none := by
  rw [Run.lookUp_eq] at h
  cases hv : Run.valueOf? m id x with
  | none =>
    rw [hv] at h
    cases h
    exact ⟨rfl, rfl⟩
  | some v =>
    rw [hv] at h
    cases h

/-- What `super` can fail with when its two frames bind a class and an instance. -/
theorem Run.superMethod_fault {m n : Machine} {s : Site} {x : Ident} {cls : ClassId}
    {i : InstanceId} {e : Fault} (hd : m.distances.get? s.id = some (d + 1))
    (hc : m.store.getAt? m.frame (d + 1) "super" = some (.cls cls))
    (hi : m.store.getAt? m.frame d "this" = some (.object i))
    (h : Run.superMethod s x m = .fault e n) : e = ⟨.undefinedProperty x.name, x.span⟩ := by
  rw [Run.superMethod_eq hd hc hi] at h
  cases hm : m.store.method? cls x.name with
  | some f =>
    rw [hm] at h
    cases h
  | none =>
    rw [hm] at h
    cases h
    rfl

namespace Session.MomentSound

variable {h : List (SourceFile × Analysis)} {m : Moment} {e : Expr}

/-- The stop at the expression of a moment is the only one, and its scopes are
those of the frames. -/
theorem exists_visit (hm : MomentSound h m) (he : m.event = .node e) :
    ∃ c, Visited h ⟨.expr e, c⟩ ∧ (∀ c', Visited h ⟨.expr e, c'⟩ → c' = c) ∧
      m.machine.store.Mirrors m.machine.frame c.scopes := by
  have hev := hm.moment.event
  rw [he] at hev
  obtain ⟨c, hc, hmir⟩ := hev
  refine ⟨c, hc, fun c' hc' => ?_, hmir⟩
  exact congrArg Visit.context (hm.unique _ _ hc' hc e.site.id rfl rfl)

theorem covers (hm : MomentSound h m) {c : Context}
    (hmir : m.machine.store.Mirrors m.machine.frame c.scopes) : m.Covers c :=
  ⟨hmir.covers.ancestor?, hm.moment.store.root, fun _ _ _ ht hx => hmir.covers.getAt? ht hx⟩

theorem reads (hm : MomentSound h m) {c : Context} (hc : Visited h ⟨.expr e, c⟩)
    (hcov : m.machine.store.Covers m.machine.frame c.scopes) : e.Reads m.machine := by
  have hv := hm.visits _ hc
  have hscope := hv.inScope
  have hrec := hv.recorded e.site.id rfl
  cases e with
  | var s x =>
    have hfound : ∀ d, m.machine.distances.get? s.id = some d →
        ∃ v, m.machine.store.getAt? m.machine.frame d x.name = some v := by
      intro d hd
      have hn : c.nearest? x.name = some d := hrec.symm.trans hd
      exact Option.isSome_iff_exists.mp
        (hcov.getAt?_nearest hn (Context.status?_of_nearest? hn hscope))
    refine ⟨fun d hd => ?_, fun e n hf => ?_⟩
    · obtain ⟨v, hv⟩ := hfound d hd
      exact ⟨v, hv, Run.lookUp_of_distance hd hv _⟩
    · obtain ⟨rfl, hnone⟩ := Run.lookUp_fault hf
      refine ⟨rfl, ?_⟩
      unfold Run.valueOf? at hnone
      cases hd : m.machine.distances.get? s.id with
      | some d =>
        obtain ⟨v, hv⟩ := hfound d hd
        rw [hd] at hnone
        dsimp only at hnone
        rw [hv] at hnone
        cases hnone
      | none =>
        rw [hd] at hnone
        refine ⟨rfl, ?_⟩
        rwa [← Store.get?_globals hm.moment.store.root hm.moment.store.size]
  | this s =>
    obtain ⟨hdist, htrue⟩ := hscope
    obtain ⟨d, hd⟩ := Context.nearest?_of_status? htrue
    obtain ⟨v, hv⟩ := Option.isSome_iff_exists.mp (hcov.getAt?_nearest hd htrue)
    have hdd : m.machine.distances.get? s.id = some d := hrec.trans (hdist.trans hd)
    exact ⟨d, v, hdd, hv, Run.lookUp_of_distance hdd hv _⟩
  | super s x =>
    obtain ⟨hsuper, hthis, d, hd, hd'⟩ := hscope
    obtain ⟨v, hv⟩ := Option.isSome_iff_exists.mp (hcov.getAt?_nearest hd hsuper)
    obtain ⟨u, hu⟩ := Option.isSome_iff_exists.mp (hcov.getAt?_nearest hd' hthis)
    obtain ⟨g, -, hg⟩ := Option.bind_eq_some_iff.mp hv
    obtain ⟨g', -, hg'⟩ := Option.bind_eq_some_iff.mp hu
    obtain ⟨cls, rfl⟩ := hm.moment.store.parent g v hg
    obtain ⟨i, rfl⟩ := hm.moment.store.receiver g' u hg'
    exact fun e n hf => Run.superMethod_fault (hrec.trans hd) hv hu hf
  | literal | grouping | unary | binary | logical | assign | call | get | set => trivial

end Session.MomentSound

/-- Wherever a run of a session evaluates an expression, the frames belong to the scopes of
the one stop of the walk at it, and its reads succeed; and an initializer finds the instance
that it gives back. -/
theorem Session.Reaches.reads_resolved {h : List (SourceFile × Analysis)} {s : Session}
    (hs : Reaches h s) (fuel : Nat) (f : SourceFile) {m : Moment} (hm : m ∈ s.moments fuel f) :
    (∀ e, m.event = .node e → ∃ c, Visited (s.accepted f ++ h) ⟨.expr e, c⟩ ∧
      (∀ c', Visited (s.accepted f ++ h) ⟨.expr e, c'⟩ → c' = c) ∧ m.Covers c ∧ e.Reads m.machine) ∧
    ∀ c, m.event = .answer c → ∃ v, m.machine.store.getAt? c.scope 0 "this" = some v := by
  have hms := hs.sound.moment hm
  refine ⟨fun e he => ?_, fun c hc => ?_⟩
  · obtain ⟨c, hc, hu, hmir⟩ := hms.exists_visit he
    exact ⟨c, hc, hu, hms.covers hmir, hms.reads hc hmir.covers⟩
  · have hev := hms.moment.event
    rw [hc] at hev
    exact Option.isSome_iff_exists.mp hev

/-- A class whose method calls the method of its superclass through `super`. -/
def superSource : SourceFile :=
  ⟨"super.lox", "class A { m() {} } class B < A { m() { super.m(); } } { var b = B(); b.m(); }"⟩

/-- In this run `super` is evaluated three scopes deep, and succeeds. -/
theorem Session.reads_resolved_super :
    ∃ m ∈ (Session.initial fun _ => 0).moments 60 superSource, ∃ site x c,
      m.event = .node (.super site x) ∧ m.Covers c ∧ (Expr.super site x).Reads m.machine := by
  have hany : ((Session.initial fun _ => 0).moments 60 superSource).any
      (fun m => match m.event with | .node (.super _ _) => true | _ => false) = true := by
    decide +kernel
  obtain ⟨m, hm, hsuper⟩ := List.any_eq_true.mp hany
  split at hsuper
  · rename_i site x he
    obtain ⟨c, -, -, hc, hr⟩ := (Reaches.reads_resolved (.initial _ _ _) 60 superSource hm).1 _ he
    exact ⟨m, hm, site, x, c, he, hc, hr⟩
  · cases hsuper

end Lox
