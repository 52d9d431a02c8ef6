import Lox.Proofs.Likeness.Store
import Lox.Proofs.Running.Invariant
import Lox.Proofs.Running.Watch
/-!
# Runs in step

A traced run and a watched one go in step when they end in the same way in machines that are alike,
while the first keeps a condition at all its stops. The traced run may have less fuel than the other
one: if it is cut off, the other one must be cut off as well only where the fuel is the same.
-/

namespace Lox

variable {α β α' β' : Type}

/-- Two pieces of work, of the evaluator itself, go in step. -/
def Run.Twins (C : Condition) (L : Likeness) (b : Nat) (r : Run α) (m : Machine) (r' : Run α')
    (m' : Machine) (Q : α → α' → Machine → Prop) : Prop :=
  match r m with
  | .done a n => C.Moves b m n ∧ ∃ a' n', r' m' = .done a' n' ∧ n.Like L n' ∧ Q a a' n
  | .fault e n => C.Moves b m n ∧ ∃ e' n', r' m' = .fault e' n' ∧ n.Like L n' ∧ L.Located e e'
  | .outOfFuel => False

/-- What a piece of a traced run keeps, however it ends. -/
structure Condition.Follows (C : Condition) (b : Nat) (t u : Trail) : Prop where
  sound : C.Sound b u
  moves : C.Moves b t.machine u.machine

/-- A traced run and a watched one go in step; `E` says that they have the same fuel. -/
def Twins (C : Condition) (L : Likeness) (b : Nat) (E : Prop) (x : Traced α) (t : Trail)
    (y : Watched α') (w : Watch) (Q : α → α' → Machine → Prop) : Prop :=
  match x t with
  | .done a u =>
    C.Follows b t u ∧ ∃ a' v, y w = .done a' v ∧ u.machine.Like L v.machine ∧ Q a a' u.machine
  | .fault e u =>
    C.Follows b t u ∧ ∃ e' v, y w = .fault e' v ∧ u.machine.Like L v.machine ∧ L.Located e e'
  | .cut u => C.Follows b t u ∧ (E → ∃ v, y w = .cut v ∧ u.machine.Like L v.machine)

variable {C : Condition} {L : Likeness} {b : Nat}

theorem Condition.Follows.refl {t : Trail} (h : C.Sound b t) : C.Follows b t t := ⟨h, .refl h.ready⟩

theorem Condition.Follows.trans {t u v : Trail} (h : C.Follows b t u) (h' : C.Follows b u v) :
    C.Follows b t v := ⟨h'.sound, h.moves.trans h'.moves⟩

/-! ### Work of the evaluator -/

namespace Run

private theorem isSome_of_frameOf? {m : Machine} {id : Nat} {x : String} {f : FrameId}
    (h : frameOf? m id x = some f) : (m.store.bound? f x).isSome := by
  unfold frameOf? at h
  split at h
  · exact Store.isSome_of_bindingAt? h
  · exact Store.isSome_of_nearest? h

end Run

namespace Run.Twins

variable {m m' : Machine} {r : Run α} {r' : Run α'}

theorem imp {Q R : α → α' → Machine → Prop} (h : Twins C L b r m r' m' Q)
    (hq : ∀ a a' n, Q a a' n → R a a' n) : Twins C L b r m r' m' R := by
  unfold Twins at *
  split at h
  · obtain ⟨hm, a', n', hr, hl, hqa⟩ := h
    exact ⟨hm, a', n', hr, hl, hq _ _ _ hqa⟩
  · exact h
  · exact h

theorem bind {Q : α → α' → Machine → Prop} {R : β → β' → Machine → Prop} {f : α → Run β}
    {f' : α' → Run β'} (h : Twins C L b r m r' m' Q)
    (hf : ∀ a a' n n', C.Moves b m n → n.Like L n' → Q a a' n → Twins C L b (f a) n (f' a') n' R) :
    Twins C L b (r >>= f) m (r' >>= f') m' R := by
  change Twins C L b (Run.bind r f) m (Run.bind r' f') m' R
  unfold Twins Run.bind at *
  cases hr : r m with
  | done a n =>
    rw [hr] at h
    obtain ⟨hm, a', n', hr', hl, hq⟩ := h
    have ha := hf a a' n n' hm hl hq
    simp only [hr']
    cases hfa : f a n with
    | done c o =>
      rw [hfa] at ha
      exact ⟨hm.trans ha.1, ha.2⟩
    | fault e o =>
      rw [hfa] at ha
      exact ⟨hm.trans ha.1, ha.2⟩
    | outOfFuel =>
      rw [hfa] at ha
      exact ha
  | fault e n =>
    rw [hr] at h
    obtain ⟨hm, e', n', hr', hl, he⟩ := h
    simp only [hr']
    exact ⟨hm, e', n', rfl, hl, he⟩
  | outOfFuel =>
    rw [hr] at h
    exact h

section

variable (hm : C.Ready b m) (hl : m.Like L m')

include hm hl

theorem pure {Q : α → α' → Machine → Prop} {a : α} {a' : α'} (hq : Q a a' m) :
    Twins C L b (pure a) m (pure a') m' Q := ⟨.refl hm, a', m', rfl, hl, hq⟩

theorem fault {Q : α → α' → Machine → Prop} (cause : FaultCause) {t t' : Span} (ht : L.span t t') :
    Twins C L b (Run.fault cause t : Run α) m (Run.fault cause t' : Run α') m' Q :=
  ⟨.refl hm, _, m', rfl, hl, rfl, ht⟩

theorem ask (f : Machine → α) (f' : Machine → α') :
    Twins C L b (Run.ask f) m (Run.ask f') m' fun a a' n => a = f m ∧ a' = f' m' ∧ n = m :=
  ⟨.refl hm, _, m', rfl, hl, rfl, rfl, rfl⟩

/-- What is asked has the same answer. -/
theorem askSame {f f' : Machine → α} (hf : f' m' = f m) :
    Twins C L b (Run.ask f) m (Run.ask f') m' fun a a' n => a' = a ∧ f m = a ∧ n = m :=
  ⟨.refl hm, _, m', rfl, hl, hf, rfl, rfl⟩

theorem orFault (x : Option α) (cause : FaultCause) {t t' : Span} (ht : L.span t t') :
    Twins C L b (Run.orFault x cause t) m (Run.orFault x cause t') m'
      fun a a' n => a' = a ∧ x = some a ∧ n = m := by
  cases x with
  | some a => exact pure hm hl ⟨rfl, rfl, rfl⟩
  | none => exact fault hm hl cause ht

theorem ofExcept (x : Except FaultCause α) {t t' : Span} (ht : L.span t t') :
    Twins C L b (Run.ofExcept x t) m (Run.ofExcept x t') m' fun a a' _ => a' = a := by
  cases x with
  | ok a => exact pure hm hl rfl
  | error cause => exact fault hm hl cause ht

theorem update {f : Store → α × Store} {f' : Store → α' × Store}
    (hs : C.Leads m.store (f m.store).2) (hf : (f m.store).2.Like L (f' m'.store).2) :
    Twins C L b (Run.update f) m (Run.update f') m' fun a a' n =>
      a = (f m.store).1 ∧ a' = (f' m'.store).1 ∧ n.store = (f m.store).2 ∧ n.frame = m.frame :=
  ⟨.update hm hs, _, _, rfl,
    ⟨hf, hl.frame, hl.distances, hl.depth, hl.maxDepth, hl.output, hl.clock, hl.readings⟩, rfl,
    rfl, rfl, rfl⟩

theorem define (hC : C.Invariant) {x x' : Ident} (hx : L.Ident x x')
    (hfit : C.Fits m.store m.frame (.here (.declaration x))) (v : Value) :
    Twins C L b (Run.define x.name v) m (Run.define x'.name v) m' fun _ _ n =>
      n.frame = m.frame ∧ C.Leads m.store n.store := by
  have hs := hC.define v hm.good hm.frame hfit
  have hstore : (m.store.define m.frame x.name v).Like L (m'.store.define m'.frame x'.name v) := by
    rw [hx.name, hl.frame]
    exact hl.store.define _ _ v
  exact ⟨.update hm hs, _, _, rfl,
    ⟨hstore, hl.frame, hl.distances, hl.depth, hl.maxDepth, hl.output, hl.clock,
      hl.readings⟩, rfl, hs⟩

theorem printText (v : Value) {t t' : Span} (ht : L.span t t') :
    Twins C L b (do Run.printLine (← Run.ask (·.store.text v)) t) m
      (do Run.printLine (← Run.ask (·.store.text v)) t') m' fun _ _ _ => True := by
  apply (askSame hm hl (hl.store.text v)).bind
  rintro _ a n n' - hln ⟨rfl, -, rfl⟩
  unfold Twins Run.printLine
  rw [hln.output]
  have hbegins := n.output.begins_write (a ++ "\n")
  cases ho : n.output.write (a ++ "\n") with
  | mk ok o =>
    rw [ho] at hbegins
    have hmoves : C.Moves b n { n with output := o } :=
      ⟨⟨hm.good, hm.frame, hm.distances, hm.depth, hm.maxDepth⟩, .refl C hm.good, rfl,
        rfl, rfl, hbegins⟩
    have hlike : Machine.Like L { n with output := o } { n' with output := o } :=
      ⟨hln.store, hln.frame, hln.distances, hln.depth, hln.maxDepth, rfl, hln.clock, hln.readings⟩
    cases ok with
    | true => exact ⟨hmoves, _, _, rfl, hlike, trivial⟩
    | false => exact ⟨hmoves, _, _, rfl, hlike, rfl, ht⟩

theorem readClock : Twins C L b Run.readClock m Run.readClock m' fun a a' _ => a' = a := by
  refine ⟨⟨⟨hm.good, hm.frame, hm.distances, hm.depth, hm.maxDepth⟩, .refl C hm.good, rfl, rfl,
    rfl, .refl _⟩,
    _, _, rfl, ⟨hl.store, hl.frame, hl.distances, hl.depth, hl.maxDepth, hl.output,
      hl.clock, ?_⟩, ?_⟩
  · exact congrArg (· + 1) hl.readings
  · rw [hl.clock, hl.readings]

/-! ### Variables -/

theorem lookUp {i i' : Nat} (hi : L.id i i') {x x' : String} (hx : x' = x) {t t' : Span}
    (ht : L.span t t') :
    Twins C L b (Run.lookUp i x t) m (Run.lookUp i' x' t') m' fun a a' n => a' = a ∧ n = m := by
  have hv : Run.valueOf? m' i' x' = Run.valueOf? m i x := by
    simp only [Run.valueOf?, hx, L.get? hl.distances hi, hl.frame,
      Store.getAt?_congr hl.store.frames, Store.get?_congr hl.store.frames]
  have h := orFault (C := C) (b := b) hm hl (Run.valueOf? m i x) (.undefinedVariable x) ht
  rw [← hx] at h
  unfold Twins at h ⊢
  rw [Run.lookUp_eq, Run.lookUp_eq, hv, ← hx]
  exact imp (Q := fun a a' n => a' = a ∧ _ ∧ n = m) h fun _ _ _ hq => ⟨hq.1, hq.2.2⟩

theorem valueAt (d : Nat) (x : String) {t t' : Span} (ht : L.span t t') :
    Twins C L b (Run.valueAt d x t) m (Run.valueAt d x t') m'
      fun a a' n => a' = a ∧ m.store.getAt? m.frame d x = some a ∧ n = m := by
  have hv : m'.store.getAt? m'.frame d x = m.store.getAt? m.frame d x := by
    rw [hl.frame, Store.getAt?_congr hl.store.frames]
  have h := orFault (C := C) (b := b) hm hl (m.store.getAt? m.frame d x) (.undefinedVariable x) ht
  unfold Twins Run.valueAt at *
  rwa [hv]

theorem assign (hC : C.Invariant) {s s' : Site} (hs : L.Site s s') {x x' : Ident}
    (hx : L.Ident x x') {e : Expr} (hfit : C.Fits m.store m.frame (.here (.expr (.assign s x e))))
    (v : Value) :
    Twins C L b (Run.assign s.id x.name v x.span) m (Run.assign s'.id x'.name v x'.span) m'
      fun _ _ _ => True := by
  have hfound : frameOf? m' s'.id x'.name = frameOf? m s.id x.name := by
    simp only [frameOf?, hx.name, L.get? hl.distances hs.id, hl.frame,
      Store.bindingAt?_congr hl.store.frames, Store.nearest?_congr hl.store.frames]
  unfold Twins
  rw [assign_eq, assign_eq, hfound]
  cases hf : frameOf? m s.id x.name with
  | none => exact ⟨.refl hm, _, _, rfl, hl, by rw [hx.name], hx.span⟩
  | some f =>
    have hlike : (m.store.define f x.name v).Like L (m'.store.define f x'.name v) := by
      rw [hx.name]
      exact hl.store.define f x.name v
    exact ⟨.update hm (hC.assign v hm.good hfit (isSome_of_frameOf? hf)), _, _, rfl,
      ⟨hlike, hl.frame, hl.distances, hl.depth, hl.maxDepth, hl.output, hl.clock,
        hl.readings⟩, trivial⟩

/-! ### Methods and properties -/

theorem bindValue (hC : C.Invariant) {k k' : Closure} (hk : k.Like L k') {i : InstanceId}
    (ho : C.Offers m.store k i) :
    Twins C L b (Run.update (·.bindValue k i)) m (Run.update (·.bindValue k' i)) m'
      fun a a' _ => a' = a := by
  obtain ⟨hv, hs⟩ := hl.store.bindValue hk i
  refine (update hm hl (hC.bindValue hm.good ho) hs).imp fun a a' n hq => ?_
  rw [hq.1, hq.2.1, hv]

theorem superMethod (hC : C.Invariant) {s s' : Site} (hs : L.Site s s') {x x' : Ident}
    (hx : L.Ident x x') (hfit : C.Fits m.store m.frame (.here (.expr (.super s x)))) :
    Twins C L b (Run.superMethod s x) m (Run.superMethod s' x') m' fun a a' _ => a' = a := by
  apply (askSame hm hl (L.get? hl.distances hs.id)).bind
  rintro _ d n n₁ - hl₁ ⟨rfl, hd, rfl⟩
  cases d with
  | none => exact fault hm hl₁ _ hs.span
  | some d =>
    apply (valueAt hm hl₁ d "super" hs.span).bind
    rintro _ parent n n₂ - hl₂ ⟨rfl, hp, rfl⟩
    by_cases h0 : d = 0
    · rw [if_pos h0, if_pos h0]
      exact fault hm hl₂ _ hs.span
    · rw [if_neg h0, if_neg h0]
      obtain ⟨d, rfl⟩ := Nat.exists_eq_succ_of_ne_zero h0
      apply (valueAt hm hl₂ d "this" hs.span).bind
      rintro _ object n n₃ - hl₃ ⟨rfl, ho, rfl⟩
      split
      · rename_i c i
        rw [hx.name]
        apply (ask hm hl₃ (·.store.method? c x.name) (·.store.method? c x.name)).bind
        rintro _ _ n n₄ - hl₄ ⟨rfl, rfl, rfl⟩
        obtain ⟨hf, hf'⟩ | ⟨f, f', hf, hf', hff⟩ := hl₃.store.method? c x.name
        · rw [hf, hf']
          exact fault hm hl₄ (.undefinedProperty x.name) hx.span
        · rw [hf, hf']
          exact bindValue hm hl₄ hC hff (hC.offersSuper hm.good hfit (hm.distances ▸ hd) hp ho hf)
      · exact fault hm hl₃ _ hs.span

theorem property (hC : C.Invariant) (v : Value) {x x' : Ident} (hx : L.Ident x x') :
    Twins C L b (Run.property v x) m (Run.property v x') m' fun a a' _ => a' = a := by
  cases v with
  | object i =>
    rw [Run.property, Run.property, hx.name]
    apply (ask hm hl (·.store.property? i x.name) (·.store.property? i x.name)).bind
    rintro p p' n n' - hl' ⟨rfl, rfl, rfl⟩
    simp only [Store.property?, hl.store.instances]
    cases hi : n.store.instances[i]? with
    | none => exact fault hm hl' _ hx.span
    | some k =>
      dsimp only
      cases hv : k.fields.find? x.name with
      | some v => exact pure hm hl' rfl
      | none =>
        obtain ⟨hf, hf'⟩ | ⟨f, f', hf, hf', hff⟩ := hl.store.method? k.cls x.name
        · rw [hf, hf']
          exact fault hm hl' (.undefinedProperty x.name) hx.span
        · rw [hf, hf']
          exact bindValue hm hl' hC hff (hC.offersOwn hm.good hi hf)
  | nil | bool | number | string | function | cls | native => exact fault hm hl _ hx.span

theorem superclassOf {p p' : Superclass} (hp : L.Superclass p p') :
    Twins C L b (Run.superclassOf p) m (Run.superclassOf p') m' fun a a' n => a' = a ∧ n = m := by
  apply (lookUp hm hl hp.site.id hp.name.name hp.name.span).bind
  rintro _ v n n' - hl' ⟨rfl, rfl⟩
  cases v with
  | cls c => exact pure hm hl' ⟨rfl, rfl⟩
  | nil | bool | number | string | function | native | object => exact fault hm hl' _ hp.site.span

theorem functionDecl (hC : C.Invariant) {d d' : FunctionDecl} (hd : d.Like L d')
    (hfit : ∀ p ∈ (Stmt.function d).spots, C.Fits m.store m.frame p)
    (hallow : ∀ e ∈ (Stmt.function d).functions, C.Allows e) :
    Twins C L b (Run.functionDecl d) m (Run.functionDecl d') m' fun _ _ _ => True := by
  have hadd := hC.function hm.good hm.frame (fun p hp => hfit p (List.mem_cons_of_mem _ hp)) hallow
  apply (askSame hm hl hl.frame).bind
  rintro _ f n n' - hl' ⟨rfl, rfl, rfl⟩
  have hc : Closure.Like L ⟨d, n.frame, false⟩ ⟨d', n.frame, false⟩ := ⟨hd, rfl, rfl⟩
  apply (update hm hl' hadd (hl'.store.addFunction hc)).bind
  rintro v v' n₁ n₁' hm₁ hl₁ ⟨hv, hv', hs, hf⟩
  have hvv : v' = v := by
    rw [hv, hv']
    exact congrArg Value.function hl'.store.functions.size
  subst hvv
  refine (define hm₁.ready hl₁ hC hd.name ?_ v').imp fun _ _ _ _ => trivial
  rw [hs, hf]
  exact hadd.spots _ _ (hfit _ List.mem_cons_self)

end

end Run.Twins

end Lox
