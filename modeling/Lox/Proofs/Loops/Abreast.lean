import Lox.Proofs.Loops.Direct
import Lox.Proofs.Loops.Pairing
import Lox.Proofs.Running.Twins
/-!
# Runs side by side

Code inside an extra frame and its copy outside of it are run on machines whose stores are side
by side. They end in the same way, with the same value, having printed the same, and the stores
are side by side again.
-/

namespace Lox

variable {α β α' β' : Type}

/-- Two machines side by side, whose code stands at the setting `p`. -/
structure Machine.Abreast (D : Distances) (P : Pairing) (p : Setting) (m m' : Machine) : Prop where
  store : m.store.Abreast D P m'.store
  frame : P p m.frame m'.frame
  distances : m.distances = D
  distances' : m'.distances = D
  depth : m'.depth = m.depth
  maxDepth : m'.maxDepth = m.maxDepth
  output : m'.output = m.output
  clock : m'.clock = m.clock
  readings : m'.readings = m.readings

/-- `n` and `n'` come after `m` and `m'` in runs side by side. -/
structure Machine.Onward (D : Distances) (P : Pairing) (p : Setting) (m m' : Machine) (Q : Pairing)
    (n n' : Machine) : Prop where
  le : P ≤ Q
  abreast : n.Abreast D Q p n'
  frame : n.frame = m.frame
  frame' : n'.frame = m'.frame

/-- Two runs that end in the same way on machines side by side, with results for which `R` holds. -/
def Run.Abreast (D : Distances) (P : Pairing) (p : Setting) (x : Run α) (m : Machine) (x' : Run α')
    (m' : Machine) (R : Pairing → α → α' → Prop) : Prop :=
  match x m with
  | .done a n => ∃ a' n' Q, x' m' = .done a' n' ∧ m.Onward D P p m' Q n n' ∧ R Q a a'
  | .fault e n => ∃ n' Q, x' m' = .fault e n' ∧ m.Onward D P p m' Q n n'
  | .outOfFuel => x' m' = .outOfFuel

/-- The results are the same. -/
def Same (_ : Pairing) (a a' : α) : Prop := a' = a

variable {D : Distances} {P Q : Pairing} {p q : Setting} {m m' n n' : Machine}

namespace Machine

theorem Onward.refl (h : m.Abreast D P p m') : m.Onward D P p m' P m m' := ⟨le_refl P, h, rfl, rfl⟩

theorem Onward.trans {Q' : Pairing} {o o' : Machine} (h : m.Onward D P p m' Q n n')
    (h' : n.Onward D Q p n' Q' o o') : m.Onward D P p m' Q' o o' :=
  ⟨le_trans h.le h'.le, h'.abreast, h'.frame.trans h.frame, h'.frame'.trans h.frame'⟩

/-- Only the stores change. -/
theorem Onward.update (h : m.Abreast D P p m') {s s' : Store} (hle : P ≤ Q)
    (hs : s.Abreast D Q s') : m.Onward D P p m' Q { m with store := s } { m' with store := s' } :=
  ⟨hle, ⟨hs, hle _ _ _ h.frame, h.distances, h.distances', h.depth, h.maxDepth, h.output,
    h.clock, h.readings⟩,
    rfl, rfl⟩

/-- Only the frames change. -/
theorem Abreast.withFrame (h : m.Abreast D P p m') {f f' : FrameId} (hf : P q f f') :
    Abreast D P q { m with frame := f } { m' with frame := f' } :=
  ⟨h.store, hf, h.distances, h.distances', h.depth, h.maxDepth, h.output, h.clock, h.readings⟩

end Machine

namespace Run.Abreast

variable {x : Run α} {x' : Run α'} {R : Pairing → α → α' → Prop}

theorem imp {S : Pairing → α → α' → Prop} (h : Run.Abreast D P p x m x' m' R)
    (hrs : ∀ Q a a', R Q a a' → S Q a a') : Run.Abreast D P p x m x' m' S := by
  unfold Run.Abreast at *
  split at h
  · obtain ⟨a', n', Q, hx', ho, hr⟩ := h
    exact ⟨a', n', Q, hx', ho, hrs _ _ _ hr⟩
  · exact h
  · exact h

theorem bind {S : Pairing → β → β' → Prop} {f : α → Run β} {f' : α' → Run β'}
    (h : Run.Abreast D P p x m x' m' R)
    (hf : ∀ a a' n n' Q, m.Onward D P p m' Q n n' → R Q a a' →
      Run.Abreast D Q p (f a) n (f' a') n' S) : Run.Abreast D P p (x >>= f) m (x' >>= f') m' S := by
  change Run.Abreast D P p (Run.bind x f) m (Run.bind x' f') m' S
  unfold Run.Abreast Run.bind at *
  cases hx : x m with
  | done a n =>
    rw [hx] at h
    obtain ⟨a', n', Q, hx', ho, hr⟩ := h
    have hfa := hf a a' n n' Q ho hr
    simp only [hx']
    cases hy : f a n with
    | done b o =>
      rw [hy] at hfa
      obtain ⟨b', o', Q', hy', ho', hs⟩ := hfa
      exact ⟨b', o', Q', hy', ho.trans ho', hs⟩
    | fault e o =>
      rw [hy] at hfa
      obtain ⟨o', Q', hy', ho'⟩ := hfa
      exact ⟨o', Q', hy', ho.trans ho'⟩
    | outOfFuel =>
      rw [hy] at hfa
      exact hfa
  | fault e n =>
    rw [hx] at h
    obtain ⟨n', Q, hx', ho⟩ := h
    simp only [hx']
    exact ⟨n', Q, rfl, ho⟩
  | outOfFuel =>
    rw [hx] at h
    simp only [h]

section

variable (hm : m.Abreast D P p m')

include hm

theorem pure {a : α} {a' : α'} (hr : R P a a') : Run.Abreast D P p (pure a) m (pure a') m' R :=
  ⟨a', m', P, rfl, .refl hm, hr⟩

theorem fault (cause : FaultCause) (span : Span) :
    Run.Abreast D P p (Run.fault cause span) m (Run.fault cause span) m' R := ⟨m', P, rfl, .refl hm⟩

theorem ask {f : Machine → α} {f' : Machine → α'} (hr : R P (f m) (f' m')) :
    Run.Abreast D P p (Run.ask f) m (Run.ask f') m' R := ⟨f' m', m', P, rfl, .refl hm, hr⟩

theorem orFault (a : Option α) (cause : FaultCause) (span : Span) :
    Run.Abreast D P p (Run.orFault a cause span) m (Run.orFault a cause span) m' Same := by
  cases a with
  | some a => exact pure hm rfl
  | none => exact fault hm cause span

theorem ofExcept (a : Except FaultCause α) (span : Span) :
    Run.Abreast D P p (Run.ofExcept a span) m (Run.ofExcept a span) m' Same := by
  cases a with
  | ok a => exact pure hm rfl
  | error cause => exact fault hm cause span

theorem update {f : Store → α × Store} {f' : Store → α' × Store} (hle : P ≤ Q)
    (hs : (f m.store).2.Abreast D Q (f' m'.store).2) (hr : R Q (f m.store).1 (f' m'.store).1) :
    Run.Abreast D P p (Run.update f) m (Run.update f') m' R :=
  ⟨_, _, Q, rfl, .update hm hle hs, hr⟩

theorem define (hp : p ≠ .inside 0) (x : String) (v : Value) :
    Run.Abreast D P p (Run.define x v) m (Run.define x v) m' Same :=
  ⟨(), _, P, rfl, .update hm (le_refl P) (hm.store.define hm.frame hp x v), rfl⟩

theorem text (v : Value) :
    Run.Abreast D P p (Run.ask (·.store.text v)) m (Run.ask (·.store.text v)) m' Same :=
  ask hm (hm.store.text v)

theorem printLine (s : String) (span : Span) :
    Run.Abreast D P p (Run.printLine s span) m (Run.printLine s span) m' Same := by
  have hwritten :
      ∀ o, m.Onward D P p m' P { m with output := o } { m' with output := o } := fun o =>
    ⟨le_refl P, ⟨hm.store, hm.frame, hm.distances, hm.distances', hm.depth, hm.maxDepth,
      rfl, hm.clock,
      hm.readings⟩, rfl, rfl⟩
  unfold Run.Abreast Run.printLine
  rw [hm.output]
  rcases m.output.write (s ++ "\n") with ⟨_ | _, o⟩
  · exact ⟨_, P, rfl, hwritten o⟩
  · exact ⟨(), _, P, rfl, hwritten o, rfl⟩

theorem readClock : Run.Abreast D P p Run.readClock m Run.readClock m' Same := by
  refine ⟨_, _, P, rfl,
    ⟨le_refl P, ⟨hm.store, hm.frame, hm.distances, hm.distances', hm.depth, hm.maxDepth,
      hm.output, hm.clock, ?_⟩, rfl, rfl⟩, ?_⟩
  · exact congrArg (· + 1) hm.readings
  · rw [Same, hm.clock, hm.readings]

end

/-! ### Frames and calls -/

/-- Runs that are entered and left in a way that keeps the machines side by side. -/
theorem around {y : Run α} {y' : Run α'} {P₁ : Pairing} {m₁ m₁' : Machine}
    {leave leave' : Machine → Machine} (hx : Run.Abreast D P₁ q x m₁ x' m₁' R)
    (hy : y m = (x m₁).on leave) (hy' : y' m' = (x' m₁').on leave')
    (hleave : ∀ Q n n', m₁.Onward D P₁ q m₁' Q n n' → m.Onward D P p m' Q (leave n) (leave' n')) :
    Run.Abreast D P p y m y' m' R := by
  unfold Run.Abreast at *
  rw [hy, hy']
  cases hr : x m₁ with
  | done a n =>
    rw [hr] at hx
    obtain ⟨a', n', Q, hx', ho, hra⟩ := hx
    exact ⟨a', _, Q, by rw [hx', Result.on], hleave Q n n' ho, hra⟩
  | fault e n =>
    rw [hr] at hx
    obtain ⟨n', Q, hx', ho⟩ := hx
    exact ⟨_, Q, by rw [hx', Result.on], hleave Q n n' ho⟩
  | outOfFuel =>
    rw [hr] at hx
    rw [hx]
    rfl

section

variable (hm : m.Abreast D P p m')

include hm

/-- Code is run in other frames. -/
theorem inFrame {f f' : FrameId}
    (hx : Run.Abreast D P q x { m with frame := f } x' { m' with frame := f' } R) :
    Run.Abreast D P p (Run.inFrame f x) m (Run.inFrame f' x') m' R :=
  around hx (Run.inFrame_eq f x m) (Run.inFrame_eq f' x' m') fun _ _ _ ho =>
    ⟨ho.le, ho.abreast.withFrame (ho.le _ _ _ hm.frame), rfl, rfl⟩

/-- Both runs have a new scope. -/
theorem inScope
    (hx : ∀ n n' Q, P ≤ Q → n.Abreast D Q p.deeper n' → Run.Abreast D Q p.deeper x n x' n' R) :
    Run.Abreast D P p x.inScope m x'.inScope m' R := by
  apply (ask (R := fun Q f f' => Q p f f') hm hm.frame).bind
  intro f f' n n' Q ho hf
  apply (update (R := fun Q g g' => Q p.deeper g g') ho.abreast (Q.le_add _ _ _)
    (ho.abreast.store.addFrame hf _)
    (Q.add_self _ _ _)).bind
  intro g g' o o' Q' ho' hg
  exact inFrame ho'.abreast (hx _ _ Q' (le_trans ho.le ho'.le) (ho'.abreast.withFrame hg))

theorem nested (hx : ∀ n n', n.Abreast D P p n' → Run.Abreast D P p x n x' n' R) :
    Run.Abreast D P p (Run.nested x) m (Run.nested x') m' R := by
  have hin :
      Machine.Abreast D P p { m with depth := m.depth + 1 } { m' with depth := m'.depth + 1 } :=
    ⟨hm.store, hm.frame, hm.distances, hm.distances', congrArg (· + 1) hm.depth,
      hm.maxDepth, hm.output,
      hm.clock, hm.readings⟩
  refine around (hx _ _ hin) (Run.nested_eq x m) (Run.nested_eq x' m') fun Q n n' ho =>
    ⟨ho.le, ?_, ho.frame, ho.frame'⟩
  have hn := ho.abreast
  exact ⟨hn.store, hn.frame, hn.distances, hn.distances', congrArg (· - 1) hn.depth,
    hn.maxDepth, hn.output,
    hn.clock, hn.readings⟩

end

/-- Only the first run has a new frame, which holds nothing. -/
theorem inExtraScope (hm : m.Abreast D P .outside m')
    (hx : ∀ n Q, P ≤ Q → n.Abreast D Q (.inside 0) m' → Run.Abreast D Q (.inside 0) x n x' m' R) :
    Run.Abreast D P .outside x.inScope m x' m' R := by
  let Q := P.add (.inside 0) m.store.frames.size m'.frame
  have hle : P ≤ Q := P.le_add _ _ _
  let n : Machine :=
    { m with store := (m.store.addScope (some m.frame)).2, frame := m.store.frames.size }
  have hn : n.Abreast D Q (.inside 0) m' :=
    ⟨hm.store.addExtra hm.frame, P.add_self _ _ _, hm.distances, hm.distances', hm.depth,
      hm.maxDepth, hm.output,
      hm.clock, hm.readings⟩
  refine around (hx n Q hle hn) (Run.inFrame_eq n.frame x { m with store := n.store })
    (Result.on_id _).symm
    fun Q' o o' ho => ⟨le_trans hle ho.le, ?_, rfl, ho.frame'⟩
  have ho' := ho.abreast
  refine ⟨ho'.store, ?_, ho'.distances, ho'.distances', ho'.depth, ho'.maxDepth, ho'.output,
    ho'.clock, ho'.readings⟩
  have hframe : o'.frame = m'.frame := ho.frame'
  simp only [id, hframe]
  exact ho.le _ _ _ (hle _ _ _ hm.frame)

section

variable (hm : m.Abreast D P p m')

include hm

/-! ### Variables -/

theorem valueAt {d d' : Nat} (hd : p.Links d d') (x : String) (span : Span) :
    Run.Abreast D P p (Run.valueAt d x span) m (Run.valueAt d' x span) m' Same := by
  have h := orFault hm (m.store.getAt? m.frame d x) (.undefinedVariable x) span
  unfold Run.Abreast Run.valueAt at *
  rwa [hm.store.getAt? hm.frame hd x]

/-- What holds of the distances of two expressions holds of what is found in the tables. -/
theorem distances {i i' : Nat} {T : Option Nat → Option Nat → Prop} (h : T (D.get? i) (D.get? i')) :
    Run.Abreast D P p (Run.ask (·.distances.get? i)) m (Run.ask (·.distances.get? i'))
      m' fun _ => T :=
  ask hm (by rwa [hm.distances, hm.distances'])

theorem lookUp {s s' : Site} (hs : s.Lifted D p s') (x : String) (span : Span) :
    Run.Abreast D P p (Run.lookUp s.id x span) m (Run.lookUp s'.id x span) m' Same := by
  apply (distances hm hs.links).bind
  intro _ _ n n' Q ho hlinks
  cases hlinks with
  | none =>
    have hvalue : Same Q (n.store.get? globals x) (n'.store.get? globals x) :=
      ho.abreast.store.get?_globals x
    apply (ask (R := Same) ho.abreast hvalue).bind
    rintro _ v o o' Q' ho' rfl
    exact orFault ho'.abreast v _ span
  | some hd => exact valueAt ho.abreast hd x span

theorem assign {s s' : Site} (hs : s.Lifted D p s') (x : String) (v : Value) (span : Span) :
    Run.Abreast D P p (Run.assign s.id x v span) m (Run.assign s'.id x v span) m' Same := by
  have hfound : Paired (Store.Abreast.Real P) (frameOf? m s.id x) (frameOf? m' s'.id x) := by
    rw [frameOf?, frameOf?, hm.distances, hm.distances']
    obtain ⟨hd, hd'⟩ | ⟨d, d', hd, hd', hlinks⟩ := Paired.of_rel hs.links <;> rw [hd, hd']
    · exact hm.store.nearest?_globals x
    · exact hm.store.bindingAt? hm.frame hlinks x
  unfold Run.Abreast
  rw [assign_eq, assign_eq]
  obtain ⟨hf, hf'⟩ | ⟨f, f', hf, hf', q, hq0, hq⟩ := hfound
  · rw [hf, hf']
    exact ⟨m', P, rfl, .refl hm⟩
  · rw [hf, hf']
    exact ⟨(), _, P, rfl, .update hm (le_refl P) (hm.store.define hq hq0 x v), rfl⟩

/-! ### Methods and properties -/

theorem bindValue {c c' : Closure} (hc : c.Unbound D P c') (i : InstanceId) :
    Run.Abreast D P p (Run.update (·.bindValue c i)) m (Run.update (·.bindValue c' i)) m' Same := by
  obtain ⟨Q, hle, hs, hv⟩ := hm.store.bindValue hc i
  exact update hm hle hs hv

theorem superMethod {s s' : Site} (hs : s.LiftedParent D p s') (x : Ident) :
    Run.Abreast D P p (Run.superMethod s x) m (Run.superMethod s' x) m' Same := by
  apply (distances hm hs.links).bind
  intro _ _ n n' Q ho hlinks
  rw [hs.span]
  cases hlinks with
  | none => exact fault ho.abreast _ _
  | here hd =>
    apply (valueAt ho.abreast hd "super" _).bind
    rintro _ parent o o' Q' ho' -
    exact fault ho'.abreast _ _
  | @outer d d' hd hd' =>
    apply (valueAt ho.abreast hd' "super" _).bind
    rintro _ parent o o' Q' ho' rfl
    rw [if_neg d.succ_ne_zero, if_neg d'.succ_ne_zero]
    apply (valueAt ho'.abreast hd "this" _).bind
    rintro _ object r r' Q'' hr rfl
    split
    · rename_i c i
      apply (ask (R := fun Q => Paired (Closure.Unbound D Q)) hr.abreast
        (hr.abreast.store.method? c x.name)).bind
      rintro _ _ t t' S ht (⟨rfl, rfl⟩ | ⟨f, f', rfl, rfl, hf⟩)
      · exact fault ht.abreast _ _
      · exact bindValue ht.abreast hf i
    · exact fault hr.abreast _ _

theorem property (v : Value) (x : Ident) :
    Run.Abreast D P p (Run.property v x) m (Run.property v x) m' Same := by
  cases v with
  | object i =>
    apply (ask (R := fun Q => PropertyAbreast D Q) hm (hm.store.property? i x.name)).bind
    rintro _ _ n n' Q ho hprop
    cases hprop with
    | field v => exact pure ho.abreast rfl
    | method hc => exact bindValue ho.abreast hc i
    | none => exact fault ho.abreast _ _
  | nil | bool | number | string | function | cls | native => exact fault hm _ _

theorem setField (i : InstanceId) (x : String) (v : Value) :
    Run.Abreast D P p (Run.update fun s => ((), s.setField i x v)) m
      (Run.update fun s => ((), s.setField i x v)) m' Same :=
  update hm (le_refl P) (hm.store.setField i x v) rfl

/-! ### Declarations -/

theorem functionDecl (hp : p ≠ .inside 0) {d d' : FunctionDecl} (hd : d.Lifted D p d') :
    Run.Abreast D P p (Run.functionDecl d) m (Run.functionDecl d') m' Same := by
  apply (ask (R := fun Q f f' => Q p f f') hm hm.frame).bind
  intro f f' n n' Q ho hf
  have hc : Closure.Abreast D Q ⟨d, f, false⟩ ⟨d', f', false⟩ := ⟨p, hf, rfl, nofun, hd⟩
  have hv : Same Q (n.store.addFunction ⟨d, f, false⟩).1 (n'.store.addFunction ⟨d', f', false⟩).1 :=
    congrArg Value.function ho.abreast.store.functions.size
  apply (update (R := Same) ho.abreast (le_refl Q) (ho.abreast.store.addFunction hc) hv).bind
  rintro _ v o o' Q' ho' rfl
  rw [hd.name]
  exact define ho'.abreast hp _ v

theorem superclassOf {c c' : Superclass} (hc : c.Lifted D p c') :
    Run.Abreast D P p (Run.superclassOf c) m (Run.superclassOf c') m' Same := by
  rw [Run.superclassOf, Run.superclassOf, hc.name, hc.site.span]
  apply (lookUp hm hc.site _ _).bind
  rintro _ v n n' Q ho rfl
  cases v with
  | cls c => exact pure ho.abreast rfl
  | nil | bool | number | string | function | native | object => exact fault ho.abreast _ _

/-- The last steps of the declaration of a class. -/
theorem addClass (hp : p ≠ .inside 0) (x : String) {k k' : Class} (hk : k.Abreast D P k') :
    Run.Abreast D P p (do let v ← Run.update (·.addClass k); Run.define x v) m
      (do let v ← Run.update (·.addClass k'); Run.define x v) m' Same := by
  have hv : Same P (m.store.addClass k).1 (m'.store.addClass k').1 :=
    congrArg Value.cls hm.store.classes.size
  apply (update (R := Same) hm (le_refl P) (hm.store.addClass hk) hv).bind
  rintro _ v n n' Q ho rfl
  exact define ho.abreast hp x v

theorem plainClass (hp : p ≠ .inside 0) (x : Ident) {ms ms' : List FunctionDecl}
    (hms : FunctionDecl.LiftedAll D p.deeper ms ms') :
    Run.Abreast D P p (Run.classDecl x none ms) m (Run.classDecl x none ms') m' Same := by
  apply (define hm hp x.name .nil).bind
  intro _ _ n n' Q ho _
  apply (ask (R := fun Q f f' => Q p f f') ho.abreast ho.abreast.frame).bind
  intro f f' o o' Q' ho' hf
  exact addClass ho'.abreast hp x.name ⟨rfl, rfl, Run.methodTable_abreast hf hms⟩

theorem subclass (hp : p ≠ .inside 0) (x : Ident) {c c' : Superclass} (hc : c.Lifted D p c')
    {ms ms' : List FunctionDecl} (hms : FunctionDecl.LiftedAll D p.deeper.deeper ms ms') :
    Run.Abreast D P p (Run.classDecl x (some c) ms) m (Run.classDecl x (some c') ms') m' Same := by
  apply (define hm hp x.name .nil).bind
  intro _ _ n n' Q ho _
  apply (ask (R := fun Q f f' => Q p f f') ho.abreast ho.abreast.frame).bind
  intro f f' o o' Q' ho' hf
  apply (superclassOf ho'.abreast hc).bind
  rintro _ k r r' S hr rfl
  apply (update (R := fun Q g g' => Q p.deeper g g') hr.abreast (S.le_add _ _ _)
    (hr.abreast.store.addFrame (hr.le _ _ _ hf) _) (S.add_self _ _ _)).bind
  intro g g' t t' T ht hg
  exact addClass ht.abreast hp x.name ⟨rfl, rfl, Run.methodTable_abreast hg hms⟩

end

end Run.Abreast

/-! ### Lists, loops and calls -/

/-- Evaluating expressions and their copies goes side by side. -/
def EvalsAbreast (D : Distances) (eval eval' : Expr → Run Value) : Prop :=
  ∀ P p e e', e.Lifted D p e' → ∀ m m', m.Abreast D P p m' →
  Run.Abreast D P p (eval e) m (eval' e') m' Same

/-- Executing statements and their copies goes side by side. -/
def ExecsAbreast (D : Distances) (exec exec' : Stmt → Run Flow) : Prop :=
  ∀ P p s s', s.Lifted D p s' → ∀ m m', m.Abreast D P p m' →
  Run.Abreast D P p (exec s) m (exec' s') m' Same

namespace Run.Abreast

theorem collect {eval eval' : Expr → Run Value} (he : EvalsAbreast D eval eval')
    {es es' : List Expr} (h : List.Forall₂ (Expr.Lifted D p) es es') (hm : m.Abreast D P p m') :
    Run.Abreast D P p (Run.collect eval es) m (Run.collect eval' es') m' Same := by
  induction h generalizing P m m' with
  | nil => exact pure hm rfl
  | cons h _ ih =>
    apply (he _ _ _ _ h _ _ hm).bind
    rintro _ v n n' Q ho rfl
    apply (ih ho.abreast).bind
    rintro _ vs o o' Q' ho' rfl
    exact pure ho'.abreast rfl

theorem andThen {x x' y y' : Run Flow} (hx : Run.Abreast D P p x m x' m' Same)
    (hy : ∀ n n' Q, P ≤ Q → n.Abreast D Q p n' → Run.Abreast D Q p y n y' n' Same) :
    Run.Abreast D P p (x.andThen y) m (x'.andThen y') m' Same := by
  apply hx.bind
  rintro _ flow n n' Q ho rfl
  cases flow with
  | normal => exact hy n n' Q ho.le ho.abreast
  | returned v => exact pure ho.abreast rfl

theorem sequence {exec exec' : Stmt → Run Flow} (he : ExecsAbreast D exec exec')
    {ss ss' : List Stmt} (h : Stmt.LiftedAll D p ss ss') (hm : m.Abreast D P p m') :
    Run.Abreast D P p (Run.sequence exec ss) m (Run.sequence exec' ss') m' Same := by
  induction ss generalizing ss' P m m' with
  | nil =>
    cases h
    exact pure hm rfl
  | cons s ss ih =>
    cases h with
    | cons hs hss => exact andThen (he _ _ _ _ hs _ _ hm) fun n n' Q _ hn => ih hss hn

theorem loop {test test' : Run Bool} {body body' : Run Flow}
    (ht : ∀ n n' Q, P ≤ Q → n.Abreast D Q p n' → Run.Abreast D Q p test n test' n' Same)
    (hb : ∀ n n' Q, P ≤ Q → n.Abreast D Q p n' → Run.Abreast D Q p body n body' n' Same)
    (hm : m.Abreast D P p m') (k : Nat) :
    Run.Abreast D P p (Run.loop test body k) m (Run.loop test' body' k) m' Same := by
  induction k generalizing P m m' with
  | zero => exact rfl
  | succ k ih =>
    apply (ht _ _ _ (le_refl P) hm).bind
    rintro _ b n n' Q ho rfl
    cases b with
    | false => exact pure ho.abreast rfl
    | true =>
      refine andThen (hb _ _ _ ho.le ho.abreast) fun o o' Q' hle hn => ih ?_ ?_ hn
      · exact fun r r' S hS => ht r r' S (le_trans ho.le (le_trans hle hS))
      · exact fun r r' S hS => hb r r' S (le_trans ho.le (le_trans hle hS))

/-- The condition of a loop. -/
theorem truthy {x x' : Run Value} (hx : Run.Abreast D P p x m x' m' Same) :
    Run.Abreast D P p (Value.isTruthy <$> x) m (Value.isTruthy <$> x') m' Same := by
  change Run.Abreast D P p (x >>= fun v => Pure.pure v.isTruthy) m (x' >>=
      fun v => Pure.pure v.isTruthy) m' Same
  apply hx.bind
  rintro _ v n n' Q ho rfl
  exact pure ho.abreast rfl

section

variable {exec exec' : Stmt → Run Flow} (he : ExecsAbreast D exec exec')

include he

theorem invoke {c c' : Closure} (hc : c.Abreast D P c') (vs : List Value)
    (hm : m.Abreast D P p m') :
    Run.Abreast D P p (Run.invoke exec c vs) m (Run.invoke exec' c' vs) m' Same := by
  obtain ⟨q, hq, hinit, hreal, hd⟩ := hc
  unfold Run.invoke
  rw [hd.parameters, hinit]
  apply (update (R := fun Q g g' => Q q.deeper g g') hm (P.le_add _ _ _) (hm.store.addFrame hq _)
    (P.add_self _ _ _)).bind
  intro g g' n n' Q ho hg
  apply (inFrame ho.abreast (sequence he hd.body (ho.abreast.withFrame hg))).bind
  rintro _ flow o o' Q' ho' rfl
  by_cases hi : c.isInitializer = true
  · rw [if_pos hi, if_pos hi]
    have hlinks : q.Links 0 0 := by
      cases q with
      | outside => exact .outside 0
      | inside k =>
        cases k with
        | zero => exact absurd rfl (hreal hi)
        | succ k => exact .here k
    have hthis : Same Q' (o.store.getAt? c.scope 0 "this") (o'.store.getAt? c'.scope 0 "this") :=
      ho'.abreast.store.getAt? (ho'.le _ _ _ (ho.le _ _ _ hq)) hlinks "this"
    apply (ask (R := Same) ho'.abreast hthis).bind
    rintro _ v r r' S hr rfl
    rw [hd.name]
    exact orFault hr.abreast v _ _
  · rw [if_neg hi, if_neg hi]
    cases flow <;> exact pure ho'.abreast rfl

theorem instantiate (k : ClassId) (vs : List Value) (hm : m.Abreast D P p m') :
    Run.Abreast D P p (Run.instantiate exec k vs) m (Run.instantiate exec' k vs) m' Same := by
  have hi : Same P (m.store.addInstance ⟨k, .empty⟩).1 (m'.store.addInstance ⟨k, .empty⟩).1 :=
    congrArg Array.size hm.store.instances
  apply (update (R := Same) hm (le_refl P) (hm.store.addInstance _) hi).bind
  rintro _ i n n' Q ho rfl
  apply (ask (R := fun Q => Paired (Closure.Unbound D Q)) ho.abreast
    (ho.abreast.store.method? k initializerName)).bind
  rintro _ _ o o' Q' ho' (⟨rfl, rfl⟩ | ⟨c, c', rfl, rfl, hc⟩)
  · exact pure ho'.abreast rfl
  · obtain ⟨S, hle, hs, hb⟩ := ho'.abreast.store.bind hc i
    apply (update (R := fun S => Closure.Abreast D S) ho'.abreast hle hs hb).bind
    intro b b' r r' S' hr hb
    apply (invoke he hb vs hr.abreast).bind
    intro _ _ t t' T ht _
    exact pure ht.abreast rfl

theorem enter (callee : Value) (vs : List Value) (hm : m.Abreast D P p m') :
    Run.Abreast D P p (Run.enter exec callee vs) m (Run.enter exec' callee vs) m' Same := by
  cases callee with
  | function f =>
    apply (ask (R := fun Q => Paired (Closure.Abreast D Q)) hm (hm.store.functions.items f)).bind
    rintro _ _ n n' Q ho (⟨rfl, rfl⟩ | ⟨c, c', rfl, rfl, hc⟩)
    · exact pure ho.abreast rfl
    · exact invoke he hc vs ho.abreast
  | cls k => exact instantiate he k vs hm
  | nil | bool | number | string | native | object => exact readClock hm

theorem call (callee : Value) (vs : List Value) (paren : Span) (hm : m.Abreast D P p m') :
    Run.Abreast D P p (Run.call exec callee vs paren) m
      (Run.call exec' callee vs paren) m' Same := by
  have harity : Same P (m.store.arity? callee) (m'.store.arity? callee) := hm.store.arity? callee
  apply (ask (R := Same) hm harity).bind
  rintro _ arity n n' Q ho rfl
  cases arity with
  | none => exact fault ho.abreast _ _
  | some k =>
    dsimp only
    by_cases hk : vs.length ≠ k
    · rw [if_pos hk, if_pos hk]
      exact fault ho.abreast _ _
    · rw [if_neg hk, if_neg hk]
      have hdepth : Same Q (decide (n.maxDepth ≤ n.depth)) (decide (n'.maxDepth ≤ n'.depth)) := by
        rw [Same, ho.abreast.maxDepth, ho.abreast.depth]
      apply (ask (R := Same) ho.abreast hdepth).bind
      rintro _ full o o' Q' ho' rfl
      cases full with
      | true => exact fault ho'.abreast _ _
      | false => exact nested ho'.abreast fun r r' hr => enter he callee vs hr

end

end Run.Abreast

/-! ### The interpreter -/

private theorem evalsAbreast_succ {fuel : Nat}
    (hev : EvalsAbreast D (Expr.eval fuel) (Expr.eval fuel))
    (hex : ExecsAbreast D (Stmt.exec fuel) (Stmt.exec fuel)) :
    EvalsAbreast D (Expr.eval (fuel + 1)) (Expr.eval (fuel + 1)) := by
  intro P p e e' h m m' hm
  cases h with
  | literal =>
    simp only [Expr.eval, Run.atLevel_eq]
    exact .pure hm rfl
  | grouping he =>
    simp only [Expr.eval, Run.atLevel_eq]
    exact hev _ _ _ _ he _ _ hm
  | unary he =>
    simp only [Expr.eval, Run.atLevel_eq]
    apply (hev _ _ _ _ he _ _ hm).bind
    rintro _ v n n' Q ho rfl
    exact .ofExcept ho.abreast _ _
  | binary hl hr =>
    simp only [Expr.eval, Run.atLevel_eq]
    apply (hev _ _ _ _ hl _ _ hm).bind
    rintro _ v n n' Q ho rfl
    apply (hev _ _ _ _ hr _ _ ho.abreast).bind
    rintro _ w o o' Q' ho' rfl
    exact .ofExcept ho'.abreast _ _
  | @logical _ _ _ _ op _ _ hl hr =>
    simp only [Expr.eval, Run.atLevel_eq]
    apply (hev _ _ _ _ hl _ _ hm).bind
    rintro _ v n n' Q ho rfl
    cases op.decides v with
    | true => exact .pure ho.abreast rfl
    | false => exact hev _ _ _ _ hr _ _ ho.abreast
  | var hs =>
    simp only [Expr.eval, Run.atLevel_eq]
    exact .lookUp hm hs _ _
  | assign hs he =>
    simp only [Expr.eval, Run.atLevel_eq]
    apply (hev _ _ _ _ he _ _ hm).bind
    rintro _ v n n' Q ho rfl
    apply (Run.Abreast.assign ho.abreast hs _ v _).bind
    rintro _ _ o o' Q' ho' -
    exact .pure ho'.abreast rfl
  | call hf hes =>
    simp only [Expr.eval, Run.atLevel_eq]
    apply (hev _ _ _ _ hf _ _ hm).bind
    rintro _ v n n' Q ho rfl
    apply (Run.Abreast.collect hev hes ho.abreast).bind
    rintro _ vs o o' Q' ho' rfl
    exact .call hex v vs _ ho'.abreast
  | get he =>
    simp only [Expr.eval, Run.atLevel_eq]
    apply (hev _ _ _ _ he _ _ hm).bind
    rintro _ v n n' Q ho rfl
    exact .property ho.abreast v _
  | set he hv =>
    simp only [Expr.eval, Run.atLevel_eq]
    apply (hev _ _ _ _ he _ _ hm).bind
    rintro _ v n n' Q ho rfl
    cases v with
    | object i =>
      apply (hev _ _ _ _ hv _ _ ho.abreast).bind
      rintro _ w o o' Q' ho' rfl
      apply (Run.Abreast.setField ho'.abreast i _ w).bind
      rintro _ _ r r' S hr -
      exact .pure hr.abreast rfl
    | nil | bool | number | string | function | cls | native => exact .fault ho.abreast _ _
  | this hs =>
    simp only [Expr.eval, Run.atLevel_eq, hs.span]
    exact .lookUp hm hs _ _
  | super hs =>
    simp only [Expr.eval, Run.atLevel_eq]
    exact .superMethod hm hs _

private theorem execsAbreast_succ {fuel : Nat}
    (hev : EvalsAbreast D (Expr.eval fuel) (Expr.eval fuel))
    (hex : ExecsAbreast D (Stmt.exec fuel) (Stmt.exec fuel)) :
    ExecsAbreast D (Stmt.exec (fuel + 1)) (Stmt.exec (fuel + 1)) := by
  intro P p s s' h m m' hm
  -- The last step of a statement that ends normally.
  have hend : ∀ {β : Type} (_ _ : β) n n' Q, m.Onward D P p m' Q n n' → True →
      Run.Abreast D Q p (pure Flow.normal) n (pure Flow.normal) n' Same :=
    fun _ _ _ _ _ ho _ => .pure ho.abreast rfl
  cases h with
  | expr he =>
    simp only [Stmt.exec, Run.atLevel_eq]
    exact ((hev _ _ _ _ he _ _ hm).imp fun _ _ _ _ => trivial).bind hend
  | @print _ t _ _ he =>
    simp only [Stmt.exec, Run.atLevel_eq]
    apply (hev _ _ _ _ he _ _ hm).bind
    rintro _ v n n' Q ho rfl
    apply (Run.Abreast.text ho.abreast v).bind
    rintro _ s o o' Q' ho' rfl
    apply (Run.Abreast.printLine ho'.abreast s t).bind
    rintro _ _ r r' S hr -
    exact .pure hr.abreast rfl
  | @var _ _ x _ _ hp he =>
    cases he with
    | none =>
      simp only [Stmt.exec, Run.atLevel_eq]
      exact ((Run.Abreast.define hm hp _ _).imp fun _ _ _ _ => trivial).bind hend
    | some he =>
      simp only [Stmt.exec, Run.atLevel_eq]
      apply (hev _ _ _ _ he _ _ hm).bind
      rintro _ v n n' Q ho rfl
      apply (Run.Abreast.define ho.abreast hp x.name v).bind
      rintro _ _ o o' Q' ho' -
      exact .pure ho'.abreast rfl
  | block hb =>
    simp only [Stmt.exec, Run.atLevel_eq]
    exact .inScope hm fun n n' Q _ hn => .sequence hex hb hn
  | ifThen hc hs =>
    simp only [Stmt.exec, Run.atLevel_eq]
    apply (hev _ _ _ _ hc _ _ hm).bind
    rintro _ v n n' Q ho rfl
    split
    · exact hex _ _ _ _ hs _ _ ho.abreast
    · exact .pure ho.abreast rfl
  | ifElse hc hs hn =>
    simp only [Stmt.exec, Run.atLevel_eq]
    apply (hev _ _ _ _ hc _ _ hm).bind
    rintro _ v n n' Q ho rfl
    split
    · exact hex _ _ _ _ hs _ _ ho.abreast
    · exact hex _ _ _ _ hn _ _ ho.abreast
  | whileLoop hc hs =>
    simp only [Stmt.exec, Run.atLevel_eq]
    exact .loop (fun n n' Q _ hn => .truthy (hev _ _ _ _ hc _ _ hn))
      (fun n n' Q _ hn => hex _ _ _ _ hs _ _ hn) hm _
  | function hp hd =>
    simp only [Stmt.exec, Run.atLevel_eq]
    exact ((Run.Abreast.functionDecl hm hp hd).imp fun _ _ _ _ => trivial).bind hend
  | plainClass hp hms =>
    simp only [Stmt.exec, Run.atLevel_eq]
    exact ((Run.Abreast.plainClass hm hp _ hms).imp fun _ _ _ _ => trivial).bind hend
  | subclass hp hc hms =>
    simp only [Stmt.exec, Run.atLevel_eq]
    exact ((Run.Abreast.subclass hm hp _ hc hms).imp fun _ _ _ _ => trivial).bind hend
  | returning he =>
    cases he with
    | none =>
      simp only [Stmt.exec, Run.atLevel_eq]
      exact .pure hm rfl
    | some he =>
      simp only [Stmt.exec, Run.atLevel_eq]
      apply (hev _ _ _ _ he _ _ hm).bind
      rintro _ v n n' Q ho rfl
      exact .pure ho.abreast rfl

/-- Code and its copy go side by side, with any amount of fuel. -/
theorem abreast (D : Distances) (fuel : Nat) :
    EvalsAbreast D (Expr.eval fuel) (Expr.eval fuel) ∧
    ExecsAbreast D (Stmt.exec fuel) (Stmt.exec fuel) := by
  induction fuel with
  | zero => exact ⟨fun _ _ _ _ _ _ _ _ => rfl, fun _ _ _ _ _ _ _ _ => rfl⟩
  | succ fuel ih => exact ⟨evalsAbreast_succ ih.1 ih.2, execsAbreast_succ ih.1 ih.2⟩

end Lox
