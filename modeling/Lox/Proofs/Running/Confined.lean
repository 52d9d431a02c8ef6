import Lox.Proofs.Running.Frames
import Lox.Proofs.Running.Primitive
import Lox.Proofs.Store.Regions
/-!
# Runs stay in what they can reach

A statement that runs in a frame gets hold of nothing but what can be reached from this frame and
from the global variables, and of what it makes itself. So it changes nothing else: what a closure
or an instance holds is safe from all code that cannot reach it.
-/

namespace Lox

variable {r : Region} {α β : Type}

/-- The machine works in the region. -/
structure Machine.Confined (r : Region) (m : Machine) : Prop where
  store : r.Confines m.store
  frame : r.Holds m.store (.frame m.frame)
  globals : r.Holds m.store (.frame globals)

/-- `n` comes after `m` in a run in the region, and is in the same frame. -/
structure Machine.Stays (r : Region) (m n : Machine) : Prop where
  confined : n.Confined r
  later : m.store.Later n.store
  frame : n.frame = m.frame

namespace Machine.Stays

variable {m n o : Machine}

theorem refl (h : m.Confined r) : m.Stays r m := ⟨h, .refl _, rfl⟩

theorem trans (h : m.Stays r n) (h' : n.Stays r o) : m.Stays r o :=
  ⟨h'.confined, h.later.trans h'.later, h'.frame.trans h.frame⟩

/-- Only the store changes. -/
theorem update (h : m.Confined r) {s : Store} (hs : r.Confines s) (hl : m.store.Later s) :
    m.Stays r { m with store := s } :=
  ⟨⟨hs, h.frame.later hl, h.globals.later hl⟩, hl, rfl⟩

end Machine.Stays

namespace Run

/-- `x`, started in `m`, stays in the region however it ends, and its result, if there is one, has
`Q` in the store at the end. -/
def Stays (r : Region) (x : Run α) (m : Machine) (Q : α → Store → Prop) : Prop :=
  match x m with
  | .done a n => m.Stays r n ∧ Q a n.store
  | .fault _ n => m.Stays r n
  | .outOfFuel => True

variable {x : Run α} {m : Machine} {Q : α → Store → Prop}

namespace Stays

theorem bind {f : α → Run β} {R : β → Store → Prop} (h : x.Stays r m Q)
    (hf : ∀ a n, m.Stays r n → Q a n.store → (f a).Stays r n R) : (x >>= f).Stays r m R := by
  change Stays r (Run.bind x f) m R
  unfold Stays Run.bind at *
  cases hx : x m with
  | done a n =>
    rw [hx] at h
    have ha := hf a n h.1 h.2
    dsimp only
    cases hfa : f a n with
    | done b o =>
      rw [hfa] at ha
      exact ⟨h.1.trans ha.1, ha.2⟩
    | fault e o =>
      rw [hfa] at ha
      exact h.1.trans ha
    | outOfFuel => trivial
  | fault e n =>
    rw [hx] at h
    exact h
  | outOfFuel => trivial

/-! ### Primitives -/

section

variable (hm : m.Confined r)

include hm

theorem pure {a : α} (hq : Q a m.store) : Stays r (pure a) m Q := ⟨.refl hm, hq⟩

theorem fault (cause : FaultCause) (span : Span) : Stays r (Run.fault cause span) m Q :=
  Machine.Stays.refl hm

theorem ask {f : Machine → α} (hq : Q (f m) m.store) : Stays r (Run.ask f) m Q := ⟨.refl hm, hq⟩

theorem orFault {x : Option α} (hx : ∀ a, x = some a → Q a m.store) (cause : FaultCause)
    (span : Span) : Stays r (Run.orFault x cause span) m Q := by
  cases x with
  | none => exact fault hm cause span
  | some a => exact pure hm (hx a rfl)

theorem ofExcept {x : Except FaultCause α} (hx : ∀ a, x = .ok a → Q a m.store) (span : Span) :
    Stays r (Run.ofExcept x span) m Q := by
  cases x with
  | error cause => exact fault hm cause span
  | ok a => exact pure hm (hx a rfl)

theorem update {f : Store → α × Store} (hs : r.Confines (f m.store).2)
    (hl : m.store.Later (f m.store).2) (hq : Q (f m.store).1 (f m.store).2) :
    Stays r (Run.update f) m Q :=
  ⟨.update hm hs hl, hq⟩

theorem define (x : String) {v : Value} (hv : r.HoldsValue m.store v) :
    Stays r (Run.define x v) m fun _ _ => True :=
  ⟨.update hm (hm.store.define hm.frame hv x) (Store.later_define _ _ _ _), trivial⟩

theorem printLine (s : String) (span : Span) :
    Stays r (Run.printLine s span) m fun _ _ => True := by
  have hwritten : ∀ o, m.Stays r { m with output := o } := fun o =>
    ⟨⟨hm.store, hm.frame, hm.globals⟩, .refl _, rfl⟩
  unfold Stays Run.printLine
  rcases m.output.write (s ++ "\n") with ⟨_ | _, o⟩
  · exact hwritten o
  · exact ⟨hwritten o, trivial⟩

theorem readClock : Stays r Run.readClock m fun v s => r.HoldsValue s v :=
  ⟨⟨⟨hm.store, hm.frame, hm.globals⟩, .refl _, rfl⟩, .plain rfl⟩

end

/-- A run that is entered through `m'` and left through `leave`, which keeps the store. -/
theorem around {y : Run α} {m' : Machine} {leave : Machine → Machine}
    (hy : y m = (x m').on leave) (hx : x.Stays r m' Q)
    (hleave : ∀ n, m'.Stays r n → m.Stays r (leave n))
    (hs : ∀ n, (leave n).store = n.store) : y.Stays r m Q := by
  unfold Stays at *
  rw [hy]
  cases hr : x m' with
  | done a n =>
    rw [hr] at hx
    exact ⟨hleave n hx.1, hs n ▸ hx.2⟩
  | fault e n =>
    rw [hr] at hx
    exact hleave n hx
  | outOfFuel => trivial

section

variable (hm : m.Confined r)

include hm

theorem inFrame {f : FrameId} (hf : r.Holds m.store (.frame f))
    (hx : ∀ n : Machine, n.Confined r → n.store = m.store → x.Stays r n Q) :
    Stays r (Run.inFrame f x) m Q :=
  around (Run.inFrame_eq f x m) (hx { m with frame := f } ⟨hm.store, hf, hm.globals⟩ rfl)
    (fun _ hn => ⟨⟨hn.confined.store, hm.frame.later hn.later, hn.confined.globals⟩, hn.later,
      rfl⟩) fun _ => rfl

theorem nested (hx : ∀ n : Machine, n.Confined r → n.store = m.store → x.Stays r n Q) :
    Stays r (Run.nested x) m Q :=
  around (Run.nested_eq x m)
    (hx { m with depth := m.depth + 1 } ⟨hm.store, hm.frame, hm.globals⟩ rfl)
    (fun _ hn => ⟨⟨hn.confined.store, hn.confined.frame, hn.confined.globals⟩, hn.later,
      hn.frame⟩) fun _ => rfl

/-! ### Variables -/

theorem valueAt (d : Nat) (x : String) (span : Span) :
    Stays r (Run.valueAt d x span) m fun v s => r.HoldsValue s v :=
  orFault (Q := fun v s => r.HoldsValue s v) hm (fun _ hv => hm.store.getAt? hm.frame hv) _ _

theorem lookUp (id : Nat) (x : String) (span : Span) :
    Stays r (Run.lookUp id x span) m fun v s => r.HoldsValue s v := by
  have hvalue : ∀ v, Run.valueOf? m id x = some v → r.HoldsValue m.store v := by
    intro v hv
    unfold Run.valueOf? at hv
    split at hv
    · exact hm.store.getAt? hm.frame hv
    · exact hm.store.get? hm.globals hv
  have h := orFault (Q := fun v s => r.HoldsValue s v) hm hvalue (.undefinedVariable x) span
  unfold Stays at h ⊢
  rwa [lookUp_eq]

theorem assign (id : Nat) (x : String) {v : Value} (hv : r.HoldsValue m.store v) (span : Span) :
    Stays r (Run.assign id x v span) m fun _ _ => True := by
  have hdefine : ∀ f, r.Holds m.store (.frame f) →
      m.Stays r { m with store := m.store.define f x v } :=
    fun f hf => .update hm (hm.store.define hf hv x) (Store.later_define _ _ _ _)
  unfold Stays Run.assign
  dsimp only
  cases m.distances.get? id with
  | some d =>
    dsimp only
    cases hf : m.store.bindingAt? m.frame d x with
    | some f => exact ⟨hdefine f (hm.store.bindingAt? hm.frame hf), trivial⟩
    | none => exact .refl hm
  | none =>
    dsimp only
    cases hf : m.store.nearest? Lox.globals x with
    | some f => exact ⟨hdefine f (hm.store.nearest? hm.globals hf), trivial⟩
    | none => exact .refl hm

/-! ### Methods and properties -/

theorem superMethod (site : Site) (x : Ident) :
    Stays r (Run.superMethod site x) m fun v s => r.HoldsValue s v := by
  apply (ask (Q := fun _ _ => True) hm trivial).bind
  intro d n hn _
  cases d with
  | none => exact fault hn.confined _ _
  | some d =>
    apply (valueAt hn.confined d "super" _).bind
    intro parent n hn hparent
    split
    · exact fault hn.confined _ _
    · apply (valueAt hn.confined (d - 1) "this" _).bind
      intro object o ho hobject
      split
      · rename_i c i
        have hc : r.Holds o.store (.cls c) := hparent.later ho.later _ rfl
        apply (ask (Q := fun f s => ∀ m ∈ f, r.Holds s (.frame m.scope)) ho.confined
          fun _ hm => ho.confined.store.method? hc hm).bind
        intro f p hp hf
        cases f with
        | none => exact fault hp.confined _ _
        | some f =>
          have hi : r.Holds p.store (.object i) := (hobject _ rfl).later hp.later
          obtain ⟨hs, hv⟩ := hp.confined.store.bindValue (hf f rfl) hi
          exact update hp.confined hs (Store.later_bindValue _ _ _) hv
      · exact fault ho.confined _ _

theorem property {v : Value} (hv : r.HoldsValue m.store v) (x : Ident) :
    Stays r (Run.property v x) m fun v s => r.HoldsValue s v := by
  cases v with
  | object i =>
    have hi : r.Holds m.store (.object i) := hv _ rfl
    apply (ask (Q := fun p s => r.Holds s (.object i) ∧ p = s.property? i x.name) hm ⟨hi, rfl⟩).bind
    rintro p n hn ⟨hi, hp⟩
    split
    · exact pure hn.confined (hn.confined.store.field hi hp.symm)
    · obtain ⟨hs, hv⟩ := hn.confined.store.bindValue (hn.confined.store.ownMethod hi hp.symm) hi
      exact update hn.confined hs (Store.later_bindValue _ _ _) hv
    · exact fault hn.confined _ _
  | nil | bool | number | string | function | cls | native => exact fault hm _ _

theorem setField {v : Value} {i : InstanceId} (hi : r.Holds m.store (.object i))
    (hv : r.HoldsValue m.store v) (x : String) :
    Stays r (Run.update fun s => ((), s.setField i x v)) m fun _ _ => True :=
  update hm (hm.store.setField hi hv x) (Store.later_setField _ _ _ _) trivial

/-! ### Declarations -/

theorem functionDecl (d : FunctionDecl) : Stays r (Run.functionDecl d) m fun _ _ => True := by
  apply (ask (Q := fun f s => r.Holds s (.frame f)) hm hm.frame).bind
  intro f n hn hf
  apply (update (Q := fun v s => r.HoldsValue s v) hn.confined (hn.confined.store.addFunction hf)
    (Store.later_addFunction _ _) (hn.confined.store.holds_addFunction _)).bind
  intro v o ho hv
  exact define ho.confined _ hv

theorem superclassOf (p : Superclass) :
    Stays r (Run.superclassOf p) m fun c s => r.Holds s (.cls c) := by
  apply (lookUp hm _ _ _).bind
  intro v n hn hv
  cases v with
  | cls c => exact pure hn.confined (hv _ rfl)
  | nil | bool | number | string | function | native | object => exact fault hn.confined _ _

end

/-- The methods of a class close over one frame. -/
theorem scope_methodTable {f : FrameId} {ms : List FunctionDecl} {x : String} {c : Closure}
    (h : (Run.methodTable f ms).find? x = some c) : c.scope = f := by
  obtain ⟨d, -, rfl⟩ := mem_of_find?_methodTable h
  rfl

theorem classDecl (hm : m.Confined r) (x : Ident) (parent : Option Superclass)
    (ms : List FunctionDecl) : Stays r (Run.classDecl x parent ms) m fun _ _ => True := by
  have hlast : ∀ (cls : Class) (n : Machine), n.Confined r →
      (∀ u, cls.Refers u → r.Holds n.store u) →
      Stays r (do let v ← Run.update (·.addClass cls); Run.define x.name v) n fun _ _ => True := by
    intro cls n hn hcls
    apply (update (Q := fun v s => r.HoldsValue s v) hn (hn.store.addClass hcls)
      (Store.later_addClass _ _)
      (hn.store.holds_addClass _)).bind
    intro v o ho hv
    exact define ho.confined _ hv
  apply (define hm x.name (.plain rfl)).bind
  intro _ n hn _
  apply (ask (Q := fun f s => r.Holds s (.frame f)) hn.confined hn.confined.frame).bind
  intro f o ho hf
  cases parent with
  | none =>
    refine hlast ⟨x.name, none, methodTable f ms⟩ o ho.confined fun u hu => ?_
    cases hu with
    | superclass hp => cases hp
    | method hmethod => exact scope_methodTable hmethod ▸ hf
  | some p =>
    apply (superclassOf ho.confined p).bind
    intro c p hp hc
    have hsuper : ∀ u, (Table.empty.insert "super" (.cls c)).Refers u → r.Holds p.store u := by
      intro u hu
      obtain hu | hu := hu.of_insert
      · exact absurd hu (Table.not_refers_empty u)
      · exact Option.some.inj hu ▸ hc
    apply (update (Q := fun g s => r.Holds s (.frame g)) hp.confined
      (hp.confined.store.addFrame (hf.later hp.later) hsuper) (Store.later_addFrame _ _)
      (hp.confined.store.holds_addFrame _)).bind
    intro g q hq hg
    refine hlast ⟨x.name, some c, methodTable g ms⟩ q hq.confined fun u hu => ?_
    cases hu with
    | superclass hp => exact Option.some.inj hp ▸ hc.later hq.later
    | method hmethod => exact scope_methodTable hmethod ▸ hg

end Stays

end Run

/-! ### Lists and loops -/

/-- The value that a statement returns, if it returns one. -/
def Flow.value? : Flow → Option Value
  | normal => none
  | returned v => some v

/-- What a statement returns is in the region. -/
def Region.HoldsFlow (r : Region) (s : Store) (flow : Flow) : Prop :=
  ∀ v ∈ flow.value?, r.HoldsValue s v

/-- Executing statements stays in the region. -/
def StaysExec (r : Region) (exec : Stmt → Run Flow) : Prop :=
  ∀ (st : Stmt) (m : Machine), m.Confined r → (exec st).Stays r m fun flow s => r.HoldsFlow s flow

/-- Evaluating expressions stays in the region. -/
def StaysEval (r : Region) (eval : Expr → Run Value) : Prop :=
  ∀ (e : Expr) (m : Machine), m.Confined r → (eval e).Stays r m fun v s => r.HoldsValue s v

namespace Run.Stays

variable {m : Machine} {eval : Expr → Run Value} {exec : Stmt → Run Flow}

theorem collect (he : StaysEval r eval) (es : List Expr) (hm : m.Confined r) :
    Stays r (Run.collect eval es) m fun vs s => ∀ v ∈ vs, r.HoldsValue s v := by
  induction es generalizing m with
  | nil => exact pure hm nofun
  | cons e es ih =>
    apply (he e m hm).bind
    intro v n hn hv
    apply (ih hn.confined).bind
    intro vs o ho hvs
    exact pure ho.confined (List.forall_mem_cons.mpr ⟨hv.later ho.later, hvs⟩)

theorem normal (hm : m.Confined r) :
    Stays r (Pure.pure Flow.normal) m fun flow s => r.HoldsFlow s flow :=
  pure hm nofun

theorem returned (hm : m.Confined r) {v : Value} (hv : r.HoldsValue m.store v) :
    Stays r (Pure.pure (Flow.returned v)) m fun flow s => r.HoldsFlow s flow :=
  pure hm fun _ hw => Option.some.inj hw ▸ hv

theorem sequence (he : StaysExec r exec) (ss : List Stmt) (hm : m.Confined r) :
    Stays r (Run.sequence exec ss) m fun flow s => r.HoldsFlow s flow := by
  induction ss generalizing m with
  | nil => exact normal hm
  | cons st ss ih =>
    apply (he st m hm).bind
    intro flow n hn hflow
    cases flow with
    | normal => exact ih hn.confined
    | returned v => exact returned hn.confined (hflow v rfl)

theorem loop {test : Run Bool} {body : Run Flow}
    (ht : ∀ m : Machine, m.Confined r → test.Stays r m fun _ _ => True)
    (hb : ∀ m : Machine, m.Confined r → body.Stays r m fun flow s => r.HoldsFlow s flow) (n : Nat)
    (hm : m.Confined r) : Stays r (Run.loop test body n) m fun flow s => r.HoldsFlow s flow := by
  induction n generalizing m with
  | zero => trivial
  | succ n ih =>
    apply (ht m hm).bind
    intro b o ho _
    cases b with
    | false => exact normal ho.confined
    | true =>
      apply (hb o ho.confined).bind
      intro flow p hp hflow
      cases flow with
      | normal => exact ih hp.confined
      | returned v => exact returned hp.confined (hflow v rfl)

/-! ### Calls -/

theorem invoke (he : StaysExec r exec) {c : Closure} {vs : List Value} (hm : m.Confined r)
    (hc : r.Holds m.store (.frame c.scope)) (hvs : ∀ v ∈ vs, r.HoldsValue m.store v) :
    Stays r (Run.invoke exec c vs) m fun v s => r.HoldsValue s v := by
  have hparams : ∀ u, (bindParameters c.decl.parameters vs).Refers u → r.Holds m.store u := by
    rintro u ⟨x, v, hv, hu⟩
    obtain ⟨p, hp, -, rfl⟩ := mem_zip_of_find?_bindParameters hv
    exact hvs p.2 (List.of_mem_zip hp).2 u hu
  apply (update (Q := fun f s => r.Holds s (.frame f)) hm (hm.store.addFrame hc hparams)
    (Store.later_addFrame _ _) (hm.store.holds_addFrame _)).bind
  intro f n hn hf
  apply (inFrame hn.confined hf fun o ho _ => sequence he c.decl.body ho).bind
  intro flow o ho hflow
  split
  · have hscope : r.Holds o.store (.frame c.scope) := (hc.later hn.later).later ho.later
    apply (ask (Q := fun v s => ∀ w ∈ v, r.HoldsValue s w) ho.confined
      fun _ hv => ho.confined.store.getAt? hscope hv).bind
    intro v p hp hv
    exact orFault hp.confined (fun w hw => hv w hw) _ _
  · cases flow with
    | returned v => exact pure ho.confined (hflow v rfl)
    | normal => exact pure ho.confined (.plain rfl)

theorem instantiate (he : StaysExec r exec) {c : ClassId} {vs : List Value} (hm : m.Confined r)
    (hc : r.Holds m.store (.cls c)) (hvs : ∀ v ∈ vs, r.HoldsValue m.store v) :
    Stays r (Run.instantiate exec c vs) m fun v s => r.HoldsValue s v := by
  have hinst : ∀ u, (⟨c, .empty⟩ : Instance).Refers u → r.Holds m.store u := by
    intro u hu
    cases hu with
    | ofClass => exact hc
    | field hu => exact absurd hu (Table.not_refers_empty u)
  apply (update (Q := fun i s => r.Holds s (.object i)) hm (hm.store.addInstance hinst)
    (Store.later_addInstance _ _) (hm.store.holds_addInstance _)).bind
  intro i n hn hi
  have hvalue : ∀ {s}, n.store.Later s → r.HoldsValue s (.object i) := fun hl u hu =>
    Option.some.inj hu ▸ hi.later hl
  apply (ask (Q := fun f s => ∀ m ∈ f, r.Holds s (.frame m.scope)) hn.confined
    fun _ hf => hn.confined.store.method? (hc.later hn.later) hf).bind
  intro f o ho hf
  cases f with
  | none => exact pure ho.confined (hvalue ho.later)
  | some f =>
    obtain ⟨hs, hscope⟩ := ho.confined.store.bind (hf f rfl) (hi.later ho.later)
    apply (update (Q := fun b s => r.Holds s (.frame b.scope)) ho.confined hs
      (Store.later_addFrame _ _)
      hscope).bind
    intro b p hp hb
    apply (invoke he hp.confined hb fun v hv =>
      (((hvs v hv).later hn.later).later ho.later).later hp.later).bind
    intro _ q hq _
    exact pure hq.confined (hvalue ((ho.later.trans hp.later).trans hq.later))

theorem enter (he : StaysExec r exec) {callee : Value} {vs : List Value} (hm : m.Confined r)
    (hc : r.HoldsValue m.store callee) (hvs : ∀ v ∈ vs, r.HoldsValue m.store v) :
    Stays r (Run.enter exec callee vs) m fun v s => r.HoldsValue s v := by
  cases callee with
  | function i =>
    have hi : r.Holds m.store (.function i) := hc _ rfl
    apply (ask (Q := fun c s => ∀ m ∈ c, r.Holds s (.frame m.scope)) hm fun _ hf =>
      hm.store.function hi hf).bind
    intro c n hn hc
    cases c with
    | none => exact pure hn.confined (.plain rfl)
    | some c => exact invoke he hn.confined (hc c rfl) fun v hv => (hvs v hv).later hn.later
  | cls c => exact instantiate he hm (hc _ rfl) hvs
  | nil | bool | number | string | native | object => exact readClock hm

theorem call (he : StaysExec r exec) {callee : Value} {vs : List Value} (hm : m.Confined r)
    (hc : r.HoldsValue m.store callee) (hvs : ∀ v ∈ vs, r.HoldsValue m.store v) (paren : Span) :
    Stays r (Run.call exec callee vs paren) m fun v s => r.HoldsValue s v := by
  apply (ask (Q := fun _ _ => True) hm trivial).bind
  intro _ n hn _
  split
  · exact fault hn.confined _ _
  · split
    · exact fault hn.confined _ _
    · apply (ask (Q := fun _ _ => True) hn.confined trivial).bind
      intro _ o ho _
      have hlater := hn.later.trans ho.later
      split
      · exact fault ho.confined _ _
      · refine nested ho.confined fun p hp hs => enter he hp ?_ fun v hv => ?_
        · rw [hs]
          exact hc.later hlater
        · rw [hs]
          exact (hvs v hv).later hlater

end Run.Stays

/-! ### Statements and expressions -/

theorem UnaryOp.thing?_apply {op : UnaryOp} {v w : Value} (h : op.apply v = .ok w) :
    w.thing? = none := by
  unfold apply at h
  split at h <;> cases h <;> rfl

theorem BinaryOp.thing?_apply {op : BinaryOp} {u v w : Value} (h : op.apply u v = .ok w) :
    w.thing? = none := by
  unfold apply at h
  split at h <;> cases h <;> rfl

theorem Value.thing?_ofLiteral (l : Literal) : (ofLiteral l).thing? = none := by
  cases l <;> rfl

private theorem Expr.staysEval {fuel : Nat} (he : StaysEval r (Expr.eval fuel))
    (hs : StaysExec r (Stmt.exec fuel)) : StaysEval r (Expr.eval (fuel + 1)) := by
  intro e m hm
  rw [Expr.eval.eq_def]
  dsimp only
  rw [Run.atLevel_eq]
  cases e with
  | literal s l => exact .pure hm (.plain (Value.thing?_ofLiteral l))
  | grouping s e => exact he e m hm
  | unary s op t e =>
    apply (he e m hm).bind
    intro v n hn _
    exact .ofExcept hn.confined (fun _ hw => .plain (UnaryOp.thing?_apply hw)) _
  | binary s l op t e =>
    apply (he l m hm).bind
    intro v n hn _
    apply (he e n hn.confined).bind
    intro w o ho _
    exact .ofExcept ho.confined (fun _ hw => .plain (BinaryOp.thing?_apply hw)) _
  | logical s l op e =>
    apply (he l m hm).bind
    intro v n hn hv
    split
    · exact .pure hn.confined hv
    · exact he e n hn.confined
  | var s x => exact .lookUp hm _ _ _
  | assign s x e =>
    apply (he e m hm).bind
    intro v n hn hv
    apply (Run.Stays.assign hn.confined _ _ hv _).bind
    intro _ o ho _
    exact .pure ho.confined (hv.later ho.later)
  | call s f paren es =>
    apply (he f m hm).bind
    intro callee n hn hc
    apply (Run.Stays.collect he es hn.confined).bind
    intro vs o ho hvs
    exact .call hs ho.confined (hc.later ho.later) hvs _
  | get s e x =>
    apply (he e m hm).bind
    intro v n hn hv
    exact .property hn.confined hv x
  | set s e x value =>
    apply (he e m hm).bind
    intro v n hn hv
    cases v with
    | object i =>
      have hi : r.Holds n.store (.object i) := hv _ rfl
      apply (he value n hn.confined).bind
      intro w o ho hw
      apply (Run.Stays.setField ho.confined (hi.later ho.later) hw x.name).bind
      intro _ p hp _
      exact .pure hp.confined (hw.later hp.later)
    | nil | bool | number | string | function | cls | native => exact .fault hn.confined _ _
  | this s => exact .lookUp hm _ _ _
  | super s x => exact .superMethod hm s x

private theorem Stmt.staysExec {fuel : Nat} (he : StaysEval r (Expr.eval fuel))
    (hs : StaysExec r (Stmt.exec fuel)) : StaysExec r (Stmt.exec (fuel + 1)) := by
  intro st m hm
  rw [Stmt.exec.eq_def]
  dsimp only
  rw [Run.atLevel_eq]
  cases st with
  | expr s e =>
    apply (he e m hm).bind
    intro _ n hn _
    exact .normal hn.confined
  | print s e =>
    apply (he e m hm).bind
    intro v n hn _
    apply (Run.Stays.ask (Q := fun _ _ => True) hn.confined trivial).bind
    intro text o ho _
    apply (Run.Stays.printLine ho.confined _ _).bind
    intro _ p hp _
    exact .normal hp.confined
  | var s x e =>
    cases e with
    | none =>
      apply (Run.Stays.define hm x.name (.plain rfl)).bind
      intro _ n hn _
      exact .normal hn.confined
    | some e =>
      apply (he e m hm).bind
      intro v n hn hv
      apply (Run.Stays.define hn.confined x.name hv).bind
      intro _ o ho _
      exact .normal ho.confined
  | block s b =>
    apply (Run.Stays.ask (Q := fun f s => r.Holds s (.frame f)) hm hm.frame).bind
    intro f n hn hf
    apply (Run.Stays.update (Q := fun g s => r.Holds s (.frame g)) hn.confined
      (hn.confined.store.addFrame hf fun u hu => absurd hu (Table.not_refers_empty u))
        (Store.later_addFrame _ _)
      (hn.confined.store.holds_addFrame _)).bind
    intro g o ho hg
    exact .inFrame ho.confined hg fun p hp _ => .sequence hs b hp
  | ifElse s c yes no =>
    apply (he c m hm).bind
    intro v n hn _
    split
    · exact hs yes n hn.confined
    · cases no with
      | none => exact .normal hn.confined
      | some no => exact hs no n hn.confined
  | whileLoop s c b =>
    refine .loop (fun n hn => ?_) (fun n hn => hs b n hn) fuel hm
    apply (he c n hn).bind
    intro v o ho _
    exact .pure ho.confined trivial
  | function d =>
    apply (Run.Stays.functionDecl hm d).bind
    intro _ n hn _
    exact .normal hn.confined
  | classDecl s x p ms =>
    apply (Run.Stays.classDecl hm x p ms).bind
    intro _ n hn _
    exact .normal hn.confined
  | returning s k e =>
    cases e with
    | none => exact .returned hm (.plain rfl)
    | some e =>
      apply (he e m hm).bind
      intro v n hn hv
      exact .returned hn.confined hv

theorem Region.stays (r : Region) (fuel : Nat) :
    StaysEval r (Expr.eval fuel) ∧ StaysExec r (Stmt.exec fuel) := by
  -- A call runs code that is not part of the tree, so the induction is on the fuel.
  induction fuel with
  | zero => exact ⟨fun e m _ => trivial, fun st m _ => trivial⟩
  | succ fuel ih => exact ⟨Expr.staysEval ih.1 ih.2, Stmt.staysExec ih.1 ih.2⟩

/-! ### Encapsulation -/

/-- Where to start from: the frame that is running, the global variables, and a value. -/
def Machine.IsRoot (m : Machine) (v : Option Value) (t : Thing) : Prop :=
  t = .frame m.frame ∨ t = .frame globals ∨ ∃ w ∈ v, w.thing? = some t

/-- What can be reached from there. -/
def Machine.Reaches (m : Machine) (v : Option Value) : Thing → Prop :=
  m.store.Reachable (m.IsRoot v)

/-- What a piece of a run from `m` to `n`, with the value `v`, leaves alone: the frames and the
instances that could not be reached at its start are as they were, and nothing can be reached at its
end but what could be reached at its start or was made in it. -/
structure Machine.Encapsulates (m n : Machine) (v : Option Value) : Prop where
  frame : n.frame = m.frame
  frames : ∀ f fr, m.store.frames[f]? = some fr → ¬ m.Reaches none (.frame f) →
    n.store.frames[f]? = some fr
  instances : ∀ i inst, m.store.instances[i]? = some inst → ¬ m.Reaches none (.object i) →
    n.store.instances[i]? = some inst
  reaches : ∀ t, n.Reaches v t → m.Reaches none t ∨ ¬ m.store.Has t ∧ n.store.Has t

/-- What can be reached when nothing has been returned yet. -/
def Machine.region (m : Machine) : Region := .ofRoots m.store (m.IsRoot none)

private theorem Machine.confined_region (m : Machine) : m.Confined m.region where
  store := Region.confines_ofRoots _ _
  frame := Region.holds_ofRoots (.inl rfl)
  globals := Region.holds_ofRoots (.inr (.inl rfl))

theorem Machine.Stays.encapsulates {m n : Machine} {v : Option Value} (h : m.Stays m.region n)
    (hv : ∀ w ∈ v, m.region.HoldsValue n.store w) : m.Encapsulates n v where
  frame := h.frame
  frames := h.confined.store.frames
  instances := h.confined.store.instances
  reaches t ht := by
    refine h.confined.store.reachable ?_ ht
    rintro u (rfl | rfl | ⟨w, hw, hu⟩)
    · exact h.confined.frame
    · exact h.confined.globals
    · exact hv w hw u hu

/-- However a statement ends, what could not be reached before it is as it was, and nothing can be
reached after it but what could be reached before it or was made by it. -/
theorem Stmt.exec_encapsulates (fuel : Nat) (st : Stmt) (m : Machine) :
    match Stmt.exec fuel st m with
    | .done flow n => m.Encapsulates n flow.value?
    | .fault _ n => m.Encapsulates n none
    | .outOfFuel => True := by
  have h := (m.region.stays fuel).2 st m m.confined_region
  unfold Run.Stays at h
  cases hx : Stmt.exec fuel st m with
  | done flow n =>
    rw [hx] at h
    exact h.1.encapsulates h.2
  | fault e n =>
    rw [hx] at h
    exact h.encapsulates nofun
  | outOfFuel => trivial

end Lox
