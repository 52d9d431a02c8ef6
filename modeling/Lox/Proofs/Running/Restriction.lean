import Lox.Proofs.Running.Limits
import Lox.Proofs.Running.Unwinding
/-!
# Narrow and wide limits

The same program runs in two machines that differ in their limits only, and those of the first
are narrower. The two runs do the same until the first one runs into a limit that the second one
does not reach. There the first one stops with a fault, and what it leaves behind is what the
second one has at that point of its trail. One induction on fuel shows this for all programs and
all kinds of limits.
-/

namespace Lox

variable {α β : Type}

theorem Output.Begins.of_eq {o p : Output} (h : p = o) : o.Begins p := h ▸ .refl o

/-- `u` is what a run has come to that was at `t`: there are new stops, and the output has grown
from one to the next. -/
structure Trail.Leads (t u : Trail) : Prop where
  stops : ∃ new, u.stops = new ++ t.stops ∧
    new.Pairwise (fun q p => p.machine.output.Begins q.machine.output) ∧
    ∀ p ∈ new, t.machine.output.Begins p.machine.output ∧ p.machine.output.Begins u.machine.output
  output : t.machine.output.Begins u.machine.output

namespace Trail

variable {t u v : Trail}

theorem Leads.refl (t : Trail) : t.Leads t := ⟨⟨[], rfl, .nil, nofun⟩, .refl _⟩

theorem Leads.trans (h : t.Leads u) (h' : u.Leads v) : t.Leads v := by
  obtain ⟨new, hstops, hnew, hp⟩ := h.stops
  obtain ⟨new', hstops', hnew', hp'⟩ := h'.stops
  refine ⟨⟨new' ++ new, by rw [hstops', hstops, List.append_assoc], ?_, fun p hmem => ?_⟩,
    h.output.trans h'.output⟩
  · exact List.pairwise_append.mpr ⟨hnew', hnew,
      fun q hq p hmem => (hp p hmem).2.trans (hp' q hq).1⟩
  · rcases List.mem_append.mp hmem with hmem | hmem
    · exact ⟨h.output.trans (hp' p hmem).1, (hp' p hmem).2⟩
    · exact ⟨(hp p hmem).1, (hp p hmem).2.trans h'.output⟩

theorem leads_go {m : Machine} (h : t.machine.output.Begins m.output) : t.Leads (t.go m) := by
  refine ⟨⟨[⟨none, m⟩], rfl, List.pairwise_singleton _ _, fun p hp => ?_⟩, h⟩
  rw [List.mem_singleton.mp hp]
  exact ⟨h, .refl _⟩

theorem leads_stop (t : Trail) (e : Event) : t.Leads (t.stop e) := by
  refine ⟨⟨[⟨some e, t.machine⟩], rfl, List.pairwise_singleton _ _, fun p hp => ?_⟩, .refl _⟩
  rw [List.mem_singleton.mp hp]
  exact ⟨.refl _, .refl _⟩

/-- Whatever was printed at a stop was printed at the stops after it. -/
theorem Leads.pairwise {m : Machine} (h : (start m).Leads t) :
    t.stops.Pairwise fun q p => p.machine.output.Begins q.machine.output := by
  obtain ⟨new, hstops, hnew, hp⟩ := h.stops
  rw [hstops]
  refine List.pairwise_append.mpr ⟨hnew, List.pairwise_singleton _ _, fun q hq p hmem => ?_⟩
  rw [List.mem_singleton.mp hmem]
  exact (hp q hq).1

end Trail

/-- How narrow limits go with wide ones. -/
structure Restriction where
  /-- Whether narrow limits go with wide ones as long as the narrow ones have made no difference. -/
  Goes : Limits → Limits → Prop
  /-- What a fault at a narrow limit, and the store and the output that it leaves, have to do with
  the trail of the other run at that point. -/
  Halts : Fault → Store → Output → Trail → Prop
  maxDepth_le {l k} : Goes l k → l.maxDepth ≤ k.maxDepth
  /-- A call nests too deep for the first run, and is entered in the second one. -/
  overflow {l : Limits} {t : Trail} (paren : Span) : Goes l t.machine.limits →
    l.maxDepth ≤ t.machine.depth →
    t.machine.depth < t.machine.maxDepth →
    Halts ⟨.stackOverflow, paren⟩ t.machine.store l.output
      (t.go { t.machine with depth := t.machine.depth + 1 })
  /-- Writing that succeeds in both runs, or in neither. -/
  write {l k} (s : String) : Goes l k → (l.output.write s).1 = (k.output.write s).1 →
    Goes ⟨l.maxDepth, (l.output.write s).2⟩ ⟨k.maxDepth, (k.output.write s).2⟩
  write_of_write {l k} (s : String) : Goes l k → (l.output.write s).1 = true →
    (k.output.write s).1 = true
  /-- A line is too long for the first run, and is printed in the second one. -/
  full {l : Limits} {t : Trail} (s : String) (span : Span) : Goes l t.machine.limits →
    (l.output.write s).1 = false → (t.machine.output.write s).1 = true →
    Halts ⟨.outputFull, span⟩ t.machine.store (l.output.write s).2
      ((t.stop (.print span)).go { t.machine with output := (t.machine.output.write s).2 })

namespace Restriction

variable (R : Restriction)

/-- The machines differ in limits only, which go together. -/
structure Joins (m n : Machine) : Prop where
  eq : m = n.within m.limits
  goes : R.Goes m.limits n.limits

/-- Two runs that have done the same. -/
structure Along (t u : Trail) : Prop where
  machine : R.Joins t.machine u.machine
  stops : List.Forall₂ (fun p q => p.event = q.event ∧ R.Joins p.machine q.machine) t.stops u.stops

/-- Two runs that end in the same way, unless the first one stops at a limit. -/
inductive Agrees : Ending Trail α → Ending Trail α → Prop where
  | done {a t u} : R.Along t u → Agrees (.done a t) (.done a u)
  | fault {e t u} : R.Along t u → Agrees (.fault e t) (.fault e u)
  | cut {t u} : R.Along t u → Agrees (.cut t) (.cut u)
  | halted {e t u r} : u.Leads r.state → R.Halts e t.machine.store t.machine.output u →
      Agrees (.fault e t) r

/-- The run of `x` only goes on, and within narrow limits it does the same as within
wide ones, or stops. -/
structure Cuts (x : Traced α) : Prop where
  leads (u : Trail) : u.Leads (x u).state
  agrees {t u : Trail} : R.Along t u → R.Agrees (x t) (x u)

variable {R}

private theorem Joins.of_goes {n : Machine} {l : Limits} (h : R.Goes l n.limits) :
    R.Joins (n.within l) n :=
  ⟨rfl, h⟩

/-- Something that has nothing to do with the limits is changed in both machines. -/
theorem Joins.with {m n m' n' : Machine} (h : R.Joins m n) (hm : m' = n'.within m.limits)
    (hn : n'.limits = n.limits) : R.Joins m' n' := by
  subst hm
  exact .of_goes (hn ▸ h.goes)

namespace Joins

variable {m n : Machine}

theorem frame (h : R.Joins m n) : n.frame = m.frame := by rw [h.eq, Machine.frame_within]

theorem depth (h : R.Joins m n) : n.depth = m.depth := by rw [h.eq, Machine.depth_within]

theorem atFrame (h : R.Joins m n) (f : FrameId) :
    R.Joins { m with frame := f } { n with frame := f } :=
  h.with (congrArg (fun m : Machine => { m with frame := f }) h.eq) rfl

theorem deeper (h : R.Joins m n) (g : Nat → Nat) :
    R.Joins { m with depth := g m.depth } { n with depth := g n.depth } :=
  h.with (congrArg (fun m : Machine => { m with depth := g m.depth }) h.eq) rfl

end Joins

namespace Along

variable {t u : Trail} {m n : Machine}

theorem start (h : R.Joins m n) : R.Along (.start m) (.start n) := ⟨h, .cons ⟨rfl, h⟩ .nil⟩

theorem go (h : R.Along t u) (hm : R.Joins m n) : R.Along (t.go m) (u.go n) :=
  ⟨hm, .cons ⟨rfl, hm⟩ h.stops⟩

theorem stop (h : R.Along t u) (e : Event) : R.Along (t.stop e) (u.stop e) :=
  ⟨h.machine, .cons ⟨rfl, h.machine⟩ h.stops⟩

end Along

/-- Without the trails: the runs end in the same way, or the first one has stopped at a limit. -/
theorem Agrees.result {x y : Ending Trail α} (h : R.Agrees x y) :
    (R.Joins x.state.machine y.state.machine ∧ x.result = y.result.within x.state.machine.limits) ∨
      ∃ e t u, x = .fault e t ∧ u.Leads y.state ∧ R.Halts e t.machine.store t.machine.output u := by
  cases h with
  | done h => exact .inl ⟨h.machine, congrArg (Result.done _) h.machine.eq⟩
  | fault h => exact .inl ⟨h.machine, congrArg (Result.fault _) h.machine.eq⟩
  | cut h => exact .inl ⟨h.machine, rfl⟩
  | halted hu hh => exact .inr ⟨_, _, _, rfl, hu, hh⟩

/-! ### Pieces of runs -/

namespace Cuts

variable {x : Traced α} {f : α → Traced β}

theorem pure (a : α) : R.Cuts (pure a) := ⟨.refl, .done⟩

theorem fault (cause : FaultCause) (span : Span) : R.Cuts (Host.fault cause span : Traced α) :=
  ⟨.refl, .fault⟩

theorem cut : R.Cuts (Host.cut : Traced α) := ⟨.refl, .cut⟩

/-- What is asked about the machine has nothing to do with its limits. -/
theorem ask {f : Machine → α} (hf : ∀ m l, f (m.within l) = f m) : R.Cuts (Host.ask f) where
  leads := .refl
  agrees {t u} h := by
    have hask : f t.machine = f u.machine := by rw [h.machine.eq, hf]
    change R.Agrees (.done (f t.machine) t) (.done (f u.machine) u)
    rw [hask]
    exact .done h

theorem note (e : Event) : R.Cuts (Host.note e) :=
  ⟨fun u => u.leads_stop e, fun h => .done (h.stop e)⟩

theorem bind (hx : R.Cuts x) (hf : ∀ a, R.Cuts (f a)) : R.Cuts (x >>= f) := by
  -- What comes after `x` leads on, also where the first run has stopped in `x` already.
  have hafter : ∀ u, (x u).state.Leads ((x >>= f) u).state := by
    intro u
    change (x u).state.Leads (Process.bind x f u).state
    unfold Process.bind
    cases x u with
    | done a v => exact (hf a).leads v
    | fault e v => exact .refl v
    | cut v => exact .refl v
  refine ⟨fun u => (hx.leads u).trans (hafter u), fun {t u} h => ?_⟩
  have hagrees := hx.agrees h
  have hafter := hafter u
  change R.Agrees (Process.bind x f t) (Process.bind x f u)
  change (x u).state.Leads (Process.bind x f u).state at hafter
  unfold Process.bind at *
  generalize x t = r at hagrees ⊢
  generalize x u = r' at hagrees hafter ⊢
  cases hagrees with
  | done h => exact (hf _).agrees h
  | fault h => exact .fault h
  | cut h => exact .cut h
  | halted hu hh => exact .halted (hu.trans hafter) hh

/-- Work to which the limits mean nothing. -/
theorem lift {r : Run α} (hr : r.Limitless) : R.Cuts (Host.lift r) where
  leads u := by
    rw [Traced.lift_eq]
    cases hu : r u.machine with
    | done a m => exact Trail.leads_go (.of_eq (congrArg Limits.output (hr.limits_of_done hu)))
    | fault e m => exact Trail.leads_go (.of_eq (congrArg Limits.output (hr.limits_of_fault hu)))
    | outOfFuel => exact .refl u
  agrees {t u} h := by
    rw [Traced.lift_eq, Traced.lift_eq, h.machine.eq, hr]
    cases hu : r u.machine with
    | done a m => exact .done (h.go (h.machine.with rfl (hr.limits_of_done hu)))
    | fault e m => exact .fault (h.go (h.machine.with rfl (hr.limits_of_fault hu)))
    | outOfFuel => exact .cut h

/-- What goes back after a piece of a run. -/
theorem around {enter : Trail → Trail} {leave : Trail → Trail → Trail} (hx : R.Cuts x)
    (he : ∀ {t u}, R.Along t u → R.Along (enter t) (enter u)) (hl : ∀ u : Trail, u.Leads (enter u))
    (hb : ∀ u v : Trail, v.Leads (leave u v))
    (ha : ∀ {t u v w}, R.Along t u → R.Along v w → R.Along (leave t v) (leave u w))
    (hh : ∀ {t v e w}, R.Halts e v.machine.store v.machine.output w →
      R.Halts e (leave t v).machine.store (leave t v).machine.output w) :
    R.Cuts (Process.around enter leave x) := by
  have hafter : ∀ u, (x (enter u)).state.Leads (Process.around enter leave x u).state := by
    intro u
    unfold Process.around
    cases x (enter u) <;> exact hb _ _
  refine ⟨fun u => (hl u).trans ((hx.leads _).trans (hafter u)), fun {t u} h => ?_⟩
  have hagrees := hx.agrees (he h)
  have hafter := hafter u
  unfold Process.around at *
  generalize x (enter t) = r at hagrees ⊢
  generalize x (enter u) = r' at hagrees hafter ⊢
  cases hagrees with
  | done h' => exact .done (ha h h')
  | fault h' => exact .fault (ha h h')
  | cut h' => exact .cut (ha h h')
  | halted hu h' => exact .halted (hu.trans hafter) (hh h')

theorem inFrame (f : FrameId) (hx : R.Cuts x) : R.Cuts (Host.inFrame f x) :=
  hx.around (fun h => h.go (h.machine.atFrame f)) (fun _ => Trail.leads_go (.refl _))
    (fun _ _ => Trail.leads_go (.refl _))
      (fun h h' => h'.go (h.machine.frame ▸ h'.machine.atFrame _)) fun h => h

theorem nested (hx : R.Cuts x) : R.Cuts (Host.nested x) :=
  hx.around (fun h => h.go (h.machine.deeper (· + 1))) (fun _ => Trail.leads_go (.refl _))
    (fun _ _ => Trail.leads_go (.refl _)) (fun _ h' => h'.go (h'.machine.deeper (· - 1))) fun h => h

/-- A call that is entered leads on. -/
theorem leads_nested (hx : R.Cuts x) (u : Trail) :
    (u.go { u.machine with depth := u.machine.depth + 1 }).Leads (Host.nested x u).state := by
  have hx := hx.leads (u.go { u.machine with depth := u.machine.depth + 1 })
  rw [Traced.nested_eq]
  unfold Process.around
  cases hr : x (u.go { u.machine with depth := u.machine.depth + 1 }) <;> rw [hr] at hx <;>
    exact hx.trans (Trail.leads_go (.refl _))

/-! ### Lists and loops -/

theorem collect {f : α → Traced β} (hf : ∀ a, R.Cuts (f a)) (as : List α) :
    R.Cuts (Host.collect f as) := by
  induction as with
  | nil => exact pure []
  | cons a as ih => exact (hf a).bind fun b => ih.bind fun bs => pure (b :: bs)

theorem sequence {f : α → Traced Flow} (hf : ∀ a, R.Cuts (f a)) (as : List α) :
    R.Cuts (Host.sequence f as) := by
  induction as with
  | nil => exact pure Flow.normal
  | cons a as ih =>
    refine (hf a).bind fun flow => ?_
    cases flow with
    | normal => exact ih
    | returned v => exact pure (Flow.returned v)

theorem loop {test : Traced Bool} {body : Traced Flow} (ht : R.Cuts test) (hb : R.Cuts body)
    (n : Nat) : R.Cuts (Host.loop test body n) := by
  induction n with
  | zero => exact cut
  | succ n ih =>
    refine ht.bind fun b => ?_
    split
    · refine hb.bind fun flow => ?_
      cases flow with
      | normal => exact ih
      | returned v => exact pure (Flow.returned v)
    · exact pure Flow.normal

/-! ### Declarations and calls -/

theorem addClass (x : Ident) (k : Class) :
    R.Cuts (do Host.lift (Run.define x.name (← Host.lift (Run.update (·.addClass k))))) :=
  (lift (.update _)).bind fun v => lift (.define x.name v)

theorem classDecl (x : Ident) (p : Option Superclass) (ms : List FunctionDecl) :
    R.Cuts (Host.classDecl x p ms) := by
  refine (lift (.define _ _)).bind fun _ => (ask fun _ _ => rfl).bind fun frame => ?_
  cases p with
  | none => exact addClass x _
  | some p =>
    refine (note _).bind fun _ => (lift (.superclassOf p)).bind fun c =>
      (lift (.update _)).bind fun f => ?_
    exact addClass x _

variable {exec : Stmt → Traced Flow}

theorem invoke (he : ∀ s, R.Cuts (exec s)) (c : Closure) (vs : List Value) :
    R.Cuts (Host.invoke exec c vs) := by
  refine (lift (.update _)).bind fun frame =>
    ((sequence he c.decl.body).inFrame frame).bind fun flow => ?_
  split
  · have hthis := Run.Indifferent.askStore (g := Machine.within) (·.getAt? c.scope 0 "this")
    exact (note _).bind fun _ => lift (hthis.bind fun _ => .orFault _ _ _)
  · cases flow with
    | normal => exact pure Value.nil
    | returned v => exact pure v

theorem instantiate (he : ∀ s, R.Cuts (exec s)) (c : ClassId) (vs : List Value) :
    R.Cuts (Host.instantiate exec c vs) := by
  refine (lift (.update _)).bind fun i => ?_
  refine (ask (f := (·.store.method? c initializerName)) fun _ _ => rfl).bind fun f => ?_
  cases f with
  | none => exact pure (Value.object i)
  | some f =>
    exact (lift (.update _)).bind fun b => (invoke he b vs).bind fun _ => pure (Value.object i)

theorem enter (he : ∀ s, R.Cuts (exec s)) (callee : Value) (vs : List Value) :
    R.Cuts (Host.enter exec callee vs) := by
  cases callee with
  | function f =>
    refine (ask (f := (·.store.functions[f]?)) fun _ _ => rfl).bind fun c => ?_
    cases c with
    | none => exact pure Value.nil
    | some c => exact invoke he c vs
  | cls c => exact instantiate he c vs
  | nil | bool | number | string | native | object => exact lift .readClock

/-- The depth is compared with two different limits. -/
theorem unlessTooDeep {x : Traced α} (hx : R.Cuts x) (paren : Span) :
    R.Cuts (do
      if ← Host.ask (fun m => decide (m.maxDepth ≤ m.depth)) then
        Host.fault .stackOverflow paren
      else Host.nested x) := by
  have hif : ∀ u : Trail,
      (do
        if ← Host.ask (fun m => decide (m.maxDepth ≤ m.depth)) then
          Host.fault .stackOverflow paren
        else Host.nested x : Traced α) u =
        if u.machine.maxDepth ≤ u.machine.depth then
            .fault ⟨.stackOverflow, paren⟩ u else Host.nested x u := by
    intro u
    change (if decide (u.machine.maxDepth ≤ u.machine.depth) = true then _ else _ : Traced α) u = _
    simp only [decide_eq_true_eq]
    split <;> rfl
  refine ⟨fun u => ?_, fun {t u} h => ?_⟩
  · rw [hif]
    split
    · exact .refl u
    · exact hx.nested.leads u
  · have hle : t.machine.maxDepth ≤ u.machine.maxDepth := R.maxDepth_le h.machine.goes
    have hdepth := h.machine.depth
    rw [hif, hif]
    by_cases ht : t.machine.maxDepth ≤ t.machine.depth
    · by_cases hu : u.machine.maxDepth ≤ u.machine.depth
      · rw [if_pos ht, if_pos hu]
        exact .fault h
      · rw [if_pos ht, if_neg hu]
        have hstore : t.machine.store = u.machine.store := by
          rw [h.machine.eq, Machine.store_within]
        refine .halted (hx.leads_nested u) ?_
        rw [hstore]
        exact R.overflow paren h.machine.goes (hdepth ▸ ht) (Nat.lt_of_not_le hu)
    · have hu : ¬ u.machine.maxDepth ≤ u.machine.depth := fun hu =>
        ht (Nat.le_trans hle (hdepth ▸ hu))
      rw [if_neg ht, if_neg hu]
      exact hx.nested.agrees h

theorem call (he : ∀ s, R.Cuts (exec s)) (callee : Value) (vs : List Value) (paren : Span) :
    R.Cuts (Host.call exec callee vs paren) := by
  refine (ask (f := (·.store.arity? callee)) fun _ _ => rfl).bind fun n => ?_
  cases n with
  | none => exact fault _ _
  | some n =>
    dsimp only
    split
    · exact fault _ _
    · exact unlessTooDeep (enter he callee vs) paren

/-- A line is written into two outputs that may have different room. -/
theorem print (v : Value) (span : Span) :
    R.Cuts (do
      Host.note (.print span)
      Host.lift do Run.printLine (← Run.ask (·.store.text v)) span) := by
  have hprint : ∀ u : Trail,
      (do
        Host.note (.print span)
        Host.lift do Run.printLine (← Run.ask (·.store.text v)) span : Traced Unit) u =
        let written := u.machine.output.write (u.machine.store.text v ++ "\n")
        let after := (u.stop (.print span)).go { u.machine with output := written.2 }
        if written.1 then .done () after else .fault ⟨.outputFull, span⟩ after := by
    intro u
    change Process.lift (fun m => Run.printLine (m.store.text v) span m) (u.stop (.print span)) = _
    unfold Process.lift Run.printLine
    dsimp only [Recorder.machine, Recorder.go, Trail.stop]
    cases u.machine.output.write (u.machine.store.text v ++ "\n") with
    | mk b o => cases b <;> rfl
  refine ⟨fun u => ?_, fun {t u} h => ?_⟩
  · have hafter := (u.leads_stop (.print span)).trans (Trail.leads_go
      (m := { u.machine with
        output := (u.machine.output.write (u.machine.store.text v ++ "\n")).2 })
      (Output.begins_write _ _))
    rw [hprint]
    dsimp only
    split <;> exact hafter
  · have hstore : t.machine.store = u.machine.store := by rw [h.machine.eq, Machine.store_within]
    rw [hprint, hprint, hstore]
    generalize u.machine.store.text v ++ "\n" = s
    dsimp only
    have hboth : (t.machine.output.write s).1 = (u.machine.output.write s).1 →
        R.Along
          ((t.stop (.print span)).go { t.machine with output := (t.machine.output.write s).2 })
          ((u.stop (.print span)).go { u.machine with output := (u.machine.output.write s).2 }) := by
      intro hw
      refine (h.stop (.print span)).go ⟨?_, R.write s h.machine.goes hw⟩
      exact congrArg
        (fun m : Machine => { m with output := (t.machine.output.write s).2 }) h.machine.eq
    cases ht : (t.machine.output.write s).1 with
    | true =>
      have hu : (u.machine.output.write s).1 = true := R.write_of_write s h.machine.goes ht
      rw [hu, if_pos rfl, if_pos rfl]
      exact .done (hboth (ht.trans hu.symm))
    | false =>
      cases hu : (u.machine.output.write s).1 with
      | false =>
        rw [if_neg (by decide), if_neg (by decide)]
        exact .fault (hboth (ht.trans hu.symm))
      | true =>
        rw [if_neg (by decide), if_pos rfl]
        refine .halted (.refl _) ?_
        dsimp only [Trail.go]
        rw [hstore]
        exact R.full s span h.machine.goes ht hu

end Cuts

/-! ### Programs -/

variable (R)

private theorem cuts (fuel : Nat) :
    (∀ e, R.Cuts (Expr.trace fuel e)) ∧ ∀ s, R.Cuts (Stmt.trace fuel s) := by
  induction fuel with
  | zero => exact ⟨fun _ => .cut, fun _ => .cut⟩
  | succ fuel ih =>
    obtain ⟨he, hs⟩ := ih
    refine ⟨fun e => ?_, fun s => ?_⟩
    · cases e with
      | literal => exact .pure _
      | grouping _ e => exact he e
      | unary _ op t e =>
        exact (he e).bind fun v => (Cuts.note _).bind fun _ => .lift (.ofExcept _ _)
      | binary _ l op t r =>
        exact (he l).bind fun v => (he r).bind fun w => (Cuts.note _).bind fun _ =>
          .lift (.ofExcept _ _)
      | logical _ l op r =>
        refine (he l).bind fun v => ?_
        split
        · exact .pure v
        · exact he r
      | var => exact (Cuts.note _).bind fun _ => .lift (.lookUp _ _ _)
      | assign _ x e =>
        exact (he e).bind fun v => (Cuts.note _).bind fun _ =>
          (Cuts.lift (.assign _ _ _ _)).bind fun _ => .pure v
      | call _ f paren es =>
        exact (he f).bind fun callee => (Cuts.collect he es).bind fun vs =>
          (Cuts.note _).bind fun _ =>
          .call hs callee vs paren
      | get _ e x => exact (he e).bind fun v => (Cuts.note _).bind fun _ => .lift (.property v x)
      | set _ e x value =>
        refine (he e).bind fun v => (Cuts.note _).bind fun _ => ?_
        cases v with
        | object i => exact (he value).bind fun v => (Cuts.lift (.update _)).bind fun _ => .pure v
        | nil | bool | number | string | function | cls | native => exact .fault _ _
      | this => exact (Cuts.note _).bind fun _ => .lift (.lookUp _ _ _)
      | super s x => exact (Cuts.note _).bind fun _ => .lift (.superMethod s x)
    · cases s with
      | expr _ e => exact (he e).bind fun _ => .pure Flow.normal
      | print t e => exact (he e).bind fun v => (Cuts.print v t).bind fun _ => .pure Flow.normal
      | var _ x e =>
        cases e with
        | none => exact (Cuts.lift (.define _ _)).bind fun _ => .pure Flow.normal
        | some e =>
          exact (he e).bind fun v => (Cuts.lift (.define _ v)).bind fun _ => .pure Flow.normal
      | block _ b =>
        exact (Cuts.ask fun _ _ => rfl).bind fun _ => (Cuts.lift (.update _)).bind fun f =>
          .inFrame f (.sequence hs b)
      | ifElse _ c yes no =>
        refine (he c).bind fun v => ?_
        split
        · exact hs yes
        · cases no with
          | none => exact .pure Flow.normal
          | some s => exact hs s
      | whileLoop _ c b => exact .loop ((he c).bind fun v => .pure _) (hs b) fuel
      | function d => exact (Cuts.lift (.functionDecl d)).bind fun _ => .pure Flow.normal
      | classDecl _ x p ms => exact (Cuts.classDecl x p ms).bind fun _ => .pure Flow.normal
      | returning _ _ e =>
        cases e with
        | none => exact .pure _
        | some e => exact (he e).bind fun v => .pure (Flow.returned v)

theorem cuts_traceAll (fuel : Nat) (body : List Stmt) : R.Cuts (traceAll fuel body) :=
  (Cuts.sequence (R.cuts fuel).2 body).bind fun _ => .pure ()

end Restriction

end Lox
