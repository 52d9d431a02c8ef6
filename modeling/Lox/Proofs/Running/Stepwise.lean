import Lox.Proofs.Running.Confined
import Lox.Proofs.Running.Trail
import Lox.Proofs.Store.Steps
/-!
# Runs go by steps

From one stop of a run to any later one the store changes by steps, and every step is one that a
store can take in which all links lead to something older. So this is how the store is at all stops.
-/

namespace Lox

variable {C : ClassDecl → Prop} {α β : Type}

/-! ### Machines -/

/-- The store is founded, and has the frame that is running. -/
structure Machine.Founded (C : ClassDecl → Prop) (m : Machine) : Prop where
  store : m.store.Founded C
  frame : m.frame < m.store.frames.size

theorem Machine.Founded.imp {C' : ClassDecl → Prop} {m : Machine} (h : m.Founded C)
    (hC : ∀ d, C d → C' d) : m.Founded C' :=
  ⟨h.store.imp hC, h.frame⟩

theorem Machine.Founded.initial (C : ClassDecl → Prop) (output : Output) (maxDepth : Nat)
    (clock : Nat → Float) : (Machine.initial output maxDepth clock).Founded C where
  store := {
    size := Nat.zero_lt_one
    root := rfl
    links := fun f hf hne => absurd (Nat.lt_one_iff.mp hf) hne
    bound := by
      intro f x v hv
      change (Store.addFrame _ _).2.bound? f x = _ at hv
      rw [Store.bound?_addFrame, Table.find?_insert] at hv
      split at hv
      · split at hv
        · exact Option.some.inj hv ▸ nofun
        · cases hv
      · cases hv
    functions := fun c hc => by
      simp [Machine.initial, Store.empty, Store.addNative, Store.addFrame] at hc
    classes := fun k cls hk => by cases hk
    instances := fun inst hi => by
      simp [Machine.initial, Store.empty, Store.addNative, Store.addFrame] at hi }
  frame := Nat.zero_lt_one

/-- `n` comes after `m` in a run. -/
structure Machine.Advances (C : ClassDecl → Prop) (m n : Machine) : Prop where
  founded : n.Founded C
  steps : Store.Steps C m.store n.store

namespace Machine.Advances

variable {m n o : Machine}

theorem refl (h : m.Founded C) : m.Advances C m := ⟨h, .refl⟩

theorem trans (h : m.Advances C n) (h' : n.Advances C o) : m.Advances C o :=
  ⟨h'.founded, h.steps.trans h'.steps⟩

theorem settles (h : m.Advances C n) : m.store.Settles n.store := Store.Steps.settles h.steps

/-- Only the store changes. -/
theorem update (h : m.Founded C) {s : Store} (hs : Store.Steps C m.store s) :
    m.Advances C { m with store := s } :=
  ⟨⟨Store.Steps.founded hs h.store, Nat.lt_of_lt_of_le h.frame (Store.Steps.settles hs).size⟩, hs⟩

/-- The store stays as it is. -/
theorem of_store_eq (h : m.Founded C) (hs : n.store = m.store)
    (hf : n.frame < m.store.frames.size) : m.Advances C n :=
  ⟨⟨hs ▸ h.store, hs ▸ hf⟩, hs ▸ .refl⟩

end Machine.Advances

/-! ### What runs nothing else -/

namespace Run

/-- `x`, started in `m`, goes by steps however it ends, and its result, if there is one, has `Q` in
the store at the end. -/
def Advances (C : ClassDecl → Prop) (x : Run α) (m : Machine) (Q : α → Store → Prop) : Prop :=
  match x m with
  | .done a n => m.Advances C n ∧ Q a n.store
  | .fault _ n => m.Advances C n
  | .outOfFuel => True

variable {x : Run α} {m : Machine} {Q : α → Store → Prop}

namespace Advances

theorem bind {f : α → Run β} {R : β → Store → Prop} (h : x.Advances C m Q)
    (hf : ∀ a n, m.Advances C n → Q a n.store → (f a).Advances C n R) :
    (x >>= f).Advances C m R := by
  change Advances C (Run.bind x f) m R
  unfold Advances Run.bind at *
  cases hx : x m with
  | done a n =>
    rw [hx] at h
    have ha := hf a n h.1 h.2
    dsimp only
    cases hfa : f a n with
    | done b o =>
      rw [hfa] at ha
      exact ⟨h.1.trans ha.1, ha.2⟩
    | fault e o =>
      rw [hfa] at ha
      exact h.1.trans ha
    | outOfFuel => trivial
  | fault e n =>
    rw [hx] at h
    exact h
  | outOfFuel => trivial

variable (hm : m.Founded C)

include hm

theorem pure {a : α} (hq : Q a m.store) : Advances C (pure a) m Q := ⟨.refl hm, hq⟩

theorem fault (cause : FaultCause) (span : Span) : Advances C (Run.fault cause span) m Q :=
  Machine.Advances.refl hm

theorem ask {f : Machine → α} (hq : Q (f m) m.store) : Advances C (Run.ask f) m Q := ⟨.refl hm, hq⟩

theorem orFault {x : Option α} (hx : ∀ a, x = some a → Q a m.store) (cause : FaultCause)
    (span : Span) : Advances C (Run.orFault x cause span) m Q := by
  cases x with
  | none => exact fault hm cause span
  | some a => exact pure hm (hx a rfl)

theorem ofExcept {x : Except FaultCause α} (hx : ∀ a, x = .ok a → Q a m.store) (span : Span) :
    Advances C (Run.ofExcept x span) m Q := by
  cases x with
  | error cause => exact fault hm cause span
  | ok a => exact pure hm (hx a rfl)

theorem update {f : Store → α × Store} (hs : Store.Steps C m.store (f m.store).2)
    (hq : Q (f m.store).1 (f m.store).2) : Advances C (Run.update f) m Q :=
  ⟨.update hm hs, hq⟩

theorem define (x : String) {v : Value} (hv : m.store.Knows v) :
    Advances C (Run.define x v) m fun _ _ => True :=
  ⟨.update hm (.single (.define hv)), trivial⟩

theorem printLine (s : String) (span : Span) :
    Advances C (Run.printLine s span) m fun _ _ => True := by
  have hwritten : ∀ o, m.Advances C { m with output := o } := fun o => .of_store_eq hm rfl hm.frame
  unfold Advances Run.printLine
  rcases m.output.write (s ++ "\n") with ⟨_ | _, o⟩
  · exact hwritten o
  · exact ⟨hwritten o, trivial⟩

theorem readClock : Advances C Run.readClock m fun v s => s.Knows v :=
  ⟨.of_store_eq hm rfl hm.frame, .plain rfl⟩

theorem valueAt (d : Nat) (x : String) (span : Span) :
    Advances C (Run.valueAt d x span) m fun v s => s.Knows v :=
  orFault (Q := fun v s => s.Knows v) hm (fun _ hv => hm.store.getAt? hv) _ _

theorem lookUp (id : Nat) (x : String) (span : Span) :
    Advances C (Run.lookUp id x span) m fun v s => s.Knows v := by
  have hvalue : ∀ v, Run.valueOf? m id x = some v → m.store.Knows v := by
    intro v hv
    unfold Run.valueOf? at hv
    split at hv
    · exact hm.store.getAt? hv
    · exact hm.store.get? hv
  have h := orFault (Q := fun v s => s.Knows v) hm hvalue (.undefinedVariable x) span
  unfold Advances at h ⊢
  rwa [lookUp_eq]

theorem assign (id : Nat) (x : String) {v : Value} (hv : m.store.Knows v) (span : Span) :
    Advances C (Run.assign id x v span) m fun _ _ => True := by
  have hdefine : ∀ f, m.Advances C { m with store := m.store.define f x v } := fun f =>
    .update hm (.single (.define hv))
  unfold Advances Run.assign
  dsimp only
  cases m.distances.get? id with
  | some d =>
    dsimp only
    cases m.store.bindingAt? m.frame d x with
    | some f => exact ⟨hdefine f, trivial⟩
    | none => exact .refl hm
  | none =>
    dsimp only
    cases m.store.nearest? Lox.globals x with
    | some f => exact ⟨hdefine f, trivial⟩
    | none => exact .refl hm

theorem superMethod (site : Site) (x : Ident) :
    Advances C (Run.superMethod site x) m fun v s => s.Knows v := by
  apply (ask (Q := fun _ _ => True) hm trivial).bind
  intro d n hn _
  cases d with
  | none => exact fault hn.founded _ _
  | some d =>
    apply (valueAt hn.founded d "super" _).bind
    intro parent n hn _
    split
    · exact fault hn.founded _ _
    · apply (valueAt hn.founded (d - 1) "this" _).bind
      intro object o ho _
      split
      · rename_i c i _ _
        apply (ask (Q := fun f s => ∀ m ∈ f, m.Founded C s) ho.founded
          fun _ hm => ho.founded.store.method? hm).bind
        intro f p hp hf
        cases f with
        | none => exact fault hp.founded _ _
        | some f =>
          exact update hp.founded (Store.steps_bindValue (hf f rfl) i) (Store.knows_function _ _)
      · exact fault ho.founded _ _

theorem property (v : Value) (x : Ident) :
    Advances C (Run.property v x) m fun v s => s.Knows v := by
  cases v with
  | object i =>
    apply (ask (Q := fun p s => p = s.property? i x.name) hm rfl).bind
    intro p n hn hp
    split
    · exact pure hn.founded (hn.founded.store.field hp.symm)
    · exact update hn.founded (Store.steps_bindValue (hn.founded.store.ownMethod hp.symm) i)
        (Store.knows_function _ _)
    · exact fault hn.founded _ _
  | nil | bool | number | string | function | cls | native => exact fault hm _ _

theorem functionDecl (d : FunctionDecl) (hd : ∀ k ∈ d.classes, C k) :
    Advances C (Run.functionDecl d) m fun _ _ => True := by
  apply (ask (Q := fun f s => f < s.frames.size) hm hm.frame).bind
  intro f n hn hf
  apply (update (Q := fun v s => s.Knows v) hn.founded (.single (.addFunction ⟨hf, hd⟩))
    (Store.knows_function _ _)).bind
  intro v o ho hv
  exact define ho.founded _ hv

theorem superclassOf (p : Superclass) :
    Advances C (Run.superclassOf p) m fun c s => c < s.classes.size := by
  apply (lookUp hm _ _ _).bind
  intro v n hn hv
  cases v with
  | cls c => exact pure hn.founded (hv c rfl)
  | nil | bool | number | string | function | native | object => exact fault hn.founded _ _

end Advances

end Run

/-! ### Trails -/

/-- The stops that a traced run adds are in order: the store of each comes out of that of
the one before it. -/
structure Trail.Advances (C : ClassDecl → Prop) (t u : Trail) : Prop where
  machine : t.machine.Advances C u.machine
  stops : ∃ new, u.stops = new ++ t.stops ∧
    new.Pairwise (fun q p => Store.Steps C p.machine.store q.machine.store) ∧
    ∀ p ∈ new, p.machine.Founded C ∧ Store.Steps C t.machine.store p.machine.store ∧
      Store.Steps C p.machine.store u.machine.store

namespace Trail

variable {t u v : Trail} {m : Machine}

theorem Advances.refl (h : t.machine.Founded C) : t.Advances C t :=
  ⟨.refl h, [], rfl, .nil, fun _ hp => by cases hp⟩

theorem Advances.trans (h : t.Advances C u) (h' : u.Advances C v) : t.Advances C v := by
  obtain ⟨new, hnew, hordered, hbetween⟩ := h.stops
  obtain ⟨new', hnew', hordered', hbetween'⟩ := h'.stops
  refine ⟨h.machine.trans h'.machine, new' ++ new, by rw [hnew', hnew, List.append_assoc], ?_, ?_⟩
  · refine List.pairwise_append.mpr ⟨hordered', hordered, fun q hq p hp => ?_⟩
    exact (hbetween p hp).2.2.trans (hbetween' q hq).2.1
  · intro p hp
    rcases List.mem_append.mp hp with hp | hp
    · obtain ⟨hfounded, hsince, huntil⟩ := hbetween' p hp
      exact ⟨hfounded, h.machine.steps.trans hsince, huntil⟩
    · obtain ⟨hfounded, hsince, huntil⟩ := hbetween p hp
      exact ⟨hfounded, hsince, huntil.trans h'.machine.steps⟩

theorem Advances.founded (h : t.Advances C u) : u.machine.Founded C := h.machine.founded

theorem Advances.settles (h : t.Advances C u) : t.machine.store.Settles u.machine.store :=
  h.machine.settles

/-- One more stop. -/
theorem advances_cons {e : Option Event} (hm : t.machine.Advances C m) :
    t.Advances C ⟨m, ⟨e, m⟩ :: t.stops⟩ := by
  refine ⟨hm, [⟨e, m⟩], rfl, List.pairwise_singleton _ _, fun p hp => ?_⟩
  obtain rfl := List.mem_singleton.mp hp
  exact ⟨hm.founded, hm.steps, .refl⟩

end Trail

/-! ### Traced runs -/

namespace Traced

/-- `x`, started on `t`, goes by steps however it ends, and its result, if there is one, has `Q` in
the store at the end. -/
def Advances (C : ClassDecl → Prop) (x : Traced α) (t : Trail) (Q : α → Store → Prop) : Prop :=
  match x t with
  | .done a u => t.Advances C u ∧ Q a u.machine.store
  | .fault _ u | .cut u => t.Advances C u

variable {x : Traced α} {t : Trail} {Q : α → Store → Prop}

namespace Advances

theorem state (h : x.Advances C t Q) : t.Advances C (x t).state := by
  unfold Advances at h
  cases hx : x t <;> rw [hx] at h
  · exact h.1
  · exact h
  · exact h

theorem bind {f : α → Traced β} {R : β → Store → Prop} (h : x.Advances C t Q)
    (hf : ∀ a u, t.Advances C u → Q a u.machine.store → (f a).Advances C u R) :
    (x >>= f).Advances C t R := by
  change Advances C (Process.bind x f) t R
  unfold Advances Process.bind at *
  cases hx : x t with
  | done a u =>
    rw [hx] at h
    have ha := hf a u h.1 h.2
    dsimp only
    cases hfa : f a u <;> rw [hfa] at ha
    · exact ⟨h.1.trans ha.1, ha.2⟩
    · exact h.1.trans ha
    · exact h.1.trans ha
  | fault e u =>
    rw [hx] at h
    exact h
  | cut u =>
    rw [hx] at h
    exact h

/-- A run that is entered and left at stops where the store is what it was. -/
theorem around {enter : Trail → Machine} {leave : Trail → Trail → Machine}
    (henter : t.machine.Advances C (enter t)) (hx : x.Advances C (t.go (enter t)) Q)
    (hleave : ∀ u : Trail, t.machine.Advances C u.machine → u.machine.Advances C (leave t u))
    (hs : ∀ u : Trail, (leave t u).store = u.machine.store) :
    Advances C (Process.around (fun t => t.go (enter t)) (fun t u => u.go (leave t u)) x) t Q := by
  have hafter : ∀ u, (t.go (enter t)).Advances C u → t.Advances C (u.go (leave t u)) := by
    intro u hu
    have hin : t.Advances C u := (Trail.advances_cons henter).trans hu
    exact hin.trans (Trail.advances_cons (hleave u hin.machine))
  unfold Advances Process.around at *
  dsimp only
  cases hr : x (t.go (enter t)) <;> rw [hr] at hx
  · exact ⟨hafter _ hx.1, (hs _).symm ▸ hx.2⟩
  · exact hafter _ hx
  · exact hafter _ hx

section

variable (ht : t.machine.Founded C)

include ht

theorem pure {a : α} (hq : Q a t.machine.store) : Advances C (pure a) t Q := ⟨.refl ht, hq⟩

theorem fault (cause : FaultCause) (span : Span) : Advances C (Host.fault cause span) t Q :=
  Trail.Advances.refl ht

theorem cut : Advances C Host.cut t Q := Trail.Advances.refl ht

theorem ask {f : Machine → α} (hq : Q (f t.machine) t.machine.store) :
    Advances C (Host.ask f) t Q := ⟨.refl ht, hq⟩

theorem note (e : Event) : Advances C (Host.note e) t fun _ _ => True :=
  ⟨Trail.advances_cons (.refl ht), trivial⟩

theorem lift {r : Run α} (hr : r.Advances C t.machine Q) : Advances C (Host.lift r) t Q := by
  unfold Advances
  rw [Traced.lift_eq]
  unfold Run.Advances at hr
  cases h : r t.machine <;> rw [h] at hr
  · exact ⟨Trail.advances_cons hr.1, hr.2⟩
  · exact Trail.advances_cons hr
  · exact .refl ht

theorem inFrame {f : FrameId} (hf : f < t.machine.store.frames.size)
    (hx : ∀ u : Trail, u.machine.Founded C → u.machine.store = t.machine.store → x.Advances C u Q) :
    Advances C (Host.inFrame f x) t Q := by
  have henter : t.machine.Advances C { t.machine with frame := f } := .of_store_eq ht rfl hf
  refine around henter (hx _ henter.founded rfl) (fun u hu => ?_) fun _ => rfl
  exact .of_store_eq hu.founded rfl (Nat.lt_of_lt_of_le ht.frame hu.settles.size)

theorem nested
    (hx : ∀ u : Trail, u.machine.Founded C → u.machine.store = t.machine.store → x.Advances C u Q) :
    Advances C (Host.nested x) t Q := by
  have henter : t.machine.Advances C { t.machine with depth := t.machine.depth + 1 } :=
    .of_store_eq ht rfl ht.frame
  refine around henter (hx _ henter.founded rfl) (fun u hu => ?_) fun _ => rfl
  exact .of_store_eq hu.founded rfl hu.founded.frame

end

end Advances

end Traced

/-- If a statement returns a class, the store has it. -/
def Store.KnowsFlow (s : Store) (flow : Flow) : Prop := ∀ v ∈ flow.value?, s.Knows v

/-- Evaluating expressions goes by steps. -/
def AdvancesEval (C : ClassDecl → Prop) (eval : Expr → Traced Value) : Prop :=
  ∀ (e : Expr) (t : Trail), t.machine.Founded C → (eval e).Advances C t fun v s => s.Knows v

/-- Executing statements that declare only classes with `C` goes by steps. -/
def AdvancesExec (C : ClassDecl → Prop) (exec : Stmt → Traced Flow) : Prop :=
  ∀ (st : Stmt) (t : Trail), (∀ k ∈ st.classes, C k) → t.machine.Founded C →
    (exec st).Advances C t fun flow s => s.KnowsFlow flow

namespace Traced.Advances

variable {t : Trail} {eval : Expr → Traced Value} {exec : Stmt → Traced Flow}

theorem normal (ht : t.machine.Founded C) :
    Advances C (Pure.pure Flow.normal) t fun flow s => s.KnowsFlow flow :=
  pure ht nofun

theorem returned (ht : t.machine.Founded C) {v : Value} (hv : t.machine.store.Knows v) :
    Advances C (Pure.pure (Flow.returned v)) t fun flow s => s.KnowsFlow flow :=
  pure ht fun _ hw => Option.some.inj hw ▸ hv

theorem collect (he : AdvancesEval C eval) (es : List Expr) (ht : t.machine.Founded C) :
    Advances C (Host.collect eval es) t fun vs s => ∀ v ∈ vs, s.Knows v := by
  induction es generalizing t with
  | nil => exact pure ht nofun
  | cons e es ih =>
    apply (he e t ht).bind
    intro v u hu hv
    apply (ih hu.founded).bind
    intro vs w hw hvs
    exact pure hw.founded (List.forall_mem_cons.mpr ⟨hv.settles hw.settles, hvs⟩)

theorem sequence (he : AdvancesExec C exec) (ss : List Stmt) (hss : ∀ k ∈ Stmt.classesAll ss, C k)
    (ht : t.machine.Founded C) :
    Advances C (Host.sequence exec ss) t fun flow s => s.KnowsFlow flow := by
  induction ss generalizing t with
  | nil => exact normal ht
  | cons st ss ih =>
    obtain ⟨hst, hss⟩ := List.forall_mem_append.mp hss
    apply (he st t hst ht).bind
    intro flow u hu hflow
    cases flow with
    | normal => exact ih hss hu.founded
    | returned v => exact returned hu.founded (hflow v rfl)

theorem loop {test : Traced Bool} {body : Traced Flow}
    (htest : ∀ t : Trail, t.machine.Founded C → test.Advances C t fun _ _ => True)
    (hbody : ∀ t : Trail, t.machine.Founded C → body.Advances C t fun flow s => s.KnowsFlow flow)
    (n : Nat) (ht : t.machine.Founded C) :
    Advances C (Host.loop test body n) t fun flow s => s.KnowsFlow flow := by
  induction n generalizing t with
  | zero => exact cut ht
  | succ n ih =>
    apply (htest t ht).bind
    intro b u hu _
    cases b with
    | false => exact normal hu.founded
    | true =>
      apply (hbody u hu.founded).bind
      intro flow w hw hflow
      cases flow with
      | normal => exact ih hw.founded
      | returned v => exact returned hw.founded (hflow v rfl)

/-! ### Declarations and calls -/

theorem classDecl (d : ClassDecl) (hd : ∀ k ∈ d.classes, C k) (ht : t.machine.Founded C) :
    Advances C (Host.classDecl d.name d.superclass d.methods) t fun _ _ => True := by
  have hlast : ∀ (p : Option ClassId) (f : FrameId) (u : Trail), u.machine.Founded C →
      (∀ c, p = some c → c < u.machine.store.classes.size) → f < u.machine.store.frames.size →
      p.isSome = d.superclass.isSome →
      Advances C (do
        let v ← Host.lift (Run.update (·.addClass (d.toClass p f)))
        Host.lift (Run.define d.name.name v)) u fun _ _ => True := by
    intro p f u hu hp hf hinherits
    have hnew :
        (u.machine.store.addClass (d.toClass p f)).2.Knows
          (u.machine.store.addClass (d.toClass p f)).1 := by
      rintro c hc
      obtain rfl := Value.cls.inj hc
      rw [Store.addClass, Array.size_push]
      exact Nat.lt_succ_self _
    apply (lift hu (Run.Advances.update (Q := fun v s => s.Knows v) hu
      (.single (.addClass hd hp hf hinherits)) hnew)).bind
    intro v w hw hv
    exact lift hw.founded (.define hw.founded _ hv)
  obtain ⟨x, parent, ms⟩ := d
  apply (lift ht (Run.Advances.define ht x.name (.plain rfl))).bind
  intro _ u hu _
  apply (ask (Q := fun f s => f < s.frames.size) hu.founded hu.founded.frame).bind
  intro f w hw hf
  cases parent with
  | none => exact hlast none f w hw.founded (fun _ hp => by cases hp) hf rfl
  | some p =>
    apply (note hw.founded _).bind
    intro _ y hy _
    apply (lift hy.founded (.superclassOf hy.founded p)).bind
    intro c z hz hc
    have hfz : f < z.machine.store.frames.size :=
      Nat.lt_of_lt_of_le hf (Nat.le_trans hy.settles.size hz.settles.size)
    apply (lift hz.founded (Run.Advances.update (Q := fun g s => g < s.frames.size ∧
      c < s.classes.size)
      hz.founded (.single (Store.step_super hfz hc)) ⟨by simp [Store.addFrame], hc⟩)).bind
    rintro g o ho ⟨hg, hc⟩
    refine hlast (some c) g o ho.founded ?_ hg rfl
    rintro _ ⟨⟩
    exact hc

theorem invoke (he : AdvancesExec C exec) {c : Closure} {vs : List Value} (ht : t.machine.Founded C)
    (hc : c.Founded C t.machine.store) (hvs : ∀ v ∈ vs, t.machine.store.Knows v) :
    Advances C (Host.invoke exec c vs) t fun v s => s.Knows v := by
  apply (lift ht (Run.Advances.update (Q := fun f s => f <
    s.frames.size) ht (.single (Store.step_call hc hvs))
    (by simp [Store.addFrame]))).bind
  intro f u hu hf
  have hbody : ∀ k ∈ Stmt.classesAll c.decl.body, C k := fun k hk =>
    hc.code k (c.decl.classes_eq ▸ hk)
  apply (inFrame hu.founded hf fun w hw _ => sequence he c.decl.body hbody hw).bind
  intro flow w hw hflow
  split
  · apply (note hw.founded _).bind
    intro _ y hy _
    refine lift hy.founded (Run.Advances.bind (Q := fun v s => ∀ w ∈ v, s.Knows w)
      (.ask hy.founded fun _ hv => hy.founded.store.getAt? hv) fun v n hn hv => ?_)
    exact .orFault hn.founded hv _ _
  · cases flow with
    | returned v => exact pure hw.founded (hflow v rfl)
    | normal => exact pure hw.founded (.plain rfl)

theorem instantiate (he : AdvancesExec C exec) {c : ClassId} {vs : List Value}
    (ht : t.machine.Founded C) (hc : c < t.machine.store.classes.size)
    (hvs : ∀ v ∈ vs, t.machine.store.Knows v) :
    Advances C (Host.instantiate exec c vs) t fun v s => s.Knows v := by
  apply (lift ht
    (Run.Advances.update (Q := fun _ _ => True) ht (.single (.addInstance hc)) trivial)).bind
  intro i u hu _
  apply (ask (Q := fun f s => ∀ m ∈ f, m.Founded C s) hu.founded
    fun _ hm => hu.founded.store.method? hm).bind
  intro f w hw hf
  cases f with
  | none => exact pure hw.founded (Store.knows_object _ i)
  | some f =>
    apply (lift hw.founded (Run.Advances.update (Q := fun b s => b.Founded C s) hw.founded
      (.single (Store.step_bind (hf f rfl) i)) (Store.founded_bind (hf f rfl) i))).bind
    intro b y hy hb
    apply (invoke he hy.founded hb fun v hv =>
      (((hvs v hv).settles hu.settles).settles hw.settles).settles hy.settles).bind
    intro _ z hz _
    exact pure hz.founded (Store.knows_object _ i)

theorem enter (he : AdvancesExec C exec) {callee : Value} {vs : List Value}
    (ht : t.machine.Founded C) (hc : t.machine.store.Knows callee)
    (hvs : ∀ v ∈ vs, t.machine.store.Knows v) :
    Advances C (Host.enter exec callee vs) t fun v s => s.Knows v := by
  cases callee with
  | function i =>
    apply (ask (Q := fun c s => ∀ m ∈ c, m.Founded C s) ht
      fun _ hm => ht.store.functions _ (Array.mem_of_getElem? hm)).bind
    intro c u hu hc
    cases c with
    | none => exact pure hu.founded (.plain rfl)
    | some c => exact invoke he hu.founded (hc c rfl) fun v hv => (hvs v hv).settles hu.settles
  | cls c => exact instantiate he ht (hc c rfl) hvs
  | nil | bool | number | string | native | object => exact lift ht (.readClock ht)

theorem call (he : AdvancesExec C exec) {callee : Value} {vs : List Value}
    (ht : t.machine.Founded C) (hc : t.machine.store.Knows callee)
    (hvs : ∀ v ∈ vs, t.machine.store.Knows v) (paren : Span) :
    Advances C (Host.call exec callee vs paren) t fun v s => s.Knows v := by
  apply (ask (Q := fun _ _ => True) ht trivial).bind
  intro _ u hu _
  split
  · exact fault hu.founded _ _
  · split
    · exact fault hu.founded _ _
    · apply (ask (Q := fun _ _ => True) hu.founded trivial).bind
      intro _ w hw _
      have hsettles := hu.settles.trans hw.settles
      split
      · exact fault hw.founded _ _
      · refine nested hw.founded fun y hy hs => enter he hy ?_ fun v hv => ?_
        · exact hs ▸ hc.settles hsettles
        · exact hs ▸ (hvs v hv).settles hsettles

end Traced.Advances

/-! ### Expressions and statements -/

theorem Expr.advances {fuel : Nat} (he : AdvancesEval C (Expr.trace fuel))
    (hs : AdvancesExec C (Stmt.trace fuel)) : AdvancesEval C (Expr.trace (fuel + 1)) := by
  intro e t ht
  cases e with
  | literal _ l => exact .pure ht (.plain (Value.thing?_ofLiteral l))
  | grouping _ e => exact he e t ht
  | unary _ op opSpan e =>
    apply (he e t ht).bind
    intro v u hu _
    apply (Traced.Advances.note hu.founded _).bind
    intro _ w hw _
    exact .lift hw.founded
      (.ofExcept hw.founded (fun _ hv => .plain (UnaryOp.thing?_apply hv)) _)
  | binary _ l op opSpan r =>
    apply (he l t ht).bind
    intro v u hu _
    apply (he r u hu.founded).bind
    intro v' w hw _
    apply (Traced.Advances.note hw.founded _).bind
    intro _ y hy _
    exact .lift hy.founded
      (.ofExcept hy.founded (fun _ hv => .plain (BinaryOp.thing?_apply hv)) _)
  | logical _ l op r =>
    apply (he l t ht).bind
    intro v u hu hv
    split
    · exact .pure hu.founded hv
    · exact he r u hu.founded
  | var s x =>
    apply (Traced.Advances.note ht _).bind
    intro _ u hu _
    exact .lift hu.founded (.lookUp hu.founded _ _ _)
  | assign s x e =>
    apply (he e t ht).bind
    intro v u hu hv
    apply (Traced.Advances.note hu.founded _).bind
    intro _ w hw _
    have hvw := hv.settles hw.settles
    apply (Traced.Advances.lift hw.founded (.assign hw.founded _ _ hvw _)).bind
    intro _ y hy _
    exact .pure hy.founded (hvw.settles hy.settles)
  | call s f paren es =>
    apply (he f t ht).bind
    intro callee u hu hc
    apply (Traced.Advances.collect he es hu.founded).bind
    intro vs w hw hvs
    apply (Traced.Advances.note hw.founded _).bind
    intro _ y hy _
    exact .call hs hy.founded ((hc.settles hw.settles).settles hy.settles)
      (fun v hv => (hvs v hv).settles hy.settles) _
  | get s e x =>
    apply (he e t ht).bind
    intro v u hu _
    apply (Traced.Advances.note hu.founded _).bind
    intro _ w hw _
    exact .lift hw.founded (.property hw.founded v x)
  | set s e x value =>
    apply (he e t ht).bind
    intro v u hu _
    apply (Traced.Advances.note hu.founded _).bind
    intro _ w hw _
    cases v with
    | object i =>
      apply (he value w hw.founded).bind
      intro v y hy hv
      apply (Traced.Advances.lift (Q := fun _ _ => True) hy.founded
        (.update hy.founded (.single (.setField hv)) trivial)).bind
      intro _ z hz _
      exact .pure hz.founded (hv.settles hz.settles)
    | nil | bool | number | string | function | cls | native => exact .fault hw.founded _ _
  | this s =>
    apply (Traced.Advances.note ht _).bind
    intro _ u hu _
    exact .lift hu.founded (.lookUp hu.founded _ _ _)
  | super s x =>
    apply (Traced.Advances.note ht _).bind
    intro _ u hu _
    exact .lift hu.founded (.superMethod hu.founded s x)

theorem Stmt.advances {fuel : Nat} (he : AdvancesEval C (Expr.trace fuel))
    (hs : AdvancesExec C (Stmt.trace fuel)) : AdvancesExec C (Stmt.trace (fuel + 1)) := by
  intro st t hcode ht
  cases st with
  | expr _ e =>
    apply (he e t ht).bind
    intro _ u hu _
    exact .normal hu.founded
  | print span e =>
    apply (he e t ht).bind
    intro v u hu _
    apply (Traced.Advances.note hu.founded _).bind
    intro _ w hw _
    have hline :
        Run.Advances C (do Run.printLine (← Run.ask (·.store.text v)) span) w.machine
          fun _ _ => True :=
      (Run.Advances.ask (Q := fun _ _ => True) hw.founded trivial).bind fun _ _ hn _ =>
        .printLine hn.founded _ _
    apply (Traced.Advances.lift hw.founded hline).bind
    intro _ y hy _
    exact .normal hy.founded
  | var _ x e =>
    cases e with
    | none =>
      apply (Traced.Advances.lift ht (.define ht x.name (.plain rfl))).bind
      intro _ u hu _
      exact .normal hu.founded
    | some e =>
      apply (he e t ht).bind
      intro v u hu hv
      apply (Traced.Advances.lift hu.founded (.define hu.founded x.name hv)).bind
      intro _ w hw _
      exact .normal hw.founded
  | block _ b =>
    apply (Traced.Advances.ask (Q := fun f s => f < s.frames.size) ht ht.frame).bind
    intro f u hu hf
    apply (Traced.Advances.lift hu.founded (Run.Advances.update (Q := fun g s => g < s.frames.size)
      hu.founded (.single (.addFrame rfl hf fun _ _ hv => by cases hv))
      (by simp [Store.addScope, Store.addFrame]))).bind
    intro g w hw hg
    exact .inFrame hw.founded hg fun y hy _ => .sequence hs b hcode hy
  | ifElse _ c yes no =>
    apply (he c t ht).bind
    intro v u hu _
    cases no with
    | none =>
      split
      · exact hs yes u hcode hu.founded
      · exact .normal hu.founded
    | some no =>
      obtain ⟨hyes, hno⟩ := List.forall_mem_append.mp hcode
      split
      · exact hs yes u hyes hu.founded
      · exact hs no u hno hu.founded
  | whileLoop _ c b =>
    refine .loop (fun u hu => ?_) (fun u hu => hs b u hcode hu) fuel ht
    apply (he c u hu).bind
    intro v w hw _
    exact .pure hw.founded trivial
  | function d =>
    apply (Traced.Advances.lift ht (.functionDecl ht d hcode)).bind
    intro _ u hu _
    exact .normal hu.founded
  | classDecl _ x p ms =>
    apply (Traced.Advances.classDecl ⟨x, p, ms⟩ hcode ht).bind
    intro _ u hu _
    exact .normal hu.founded
  | returning _ _ e =>
    cases e with
    | none => exact .returned ht (.plain rfl)
    | some e =>
      apply (he e t ht).bind
      intro v u hu hv
      exact .returned hu.founded hv

private theorem advances_trace (C : ClassDecl → Prop) (fuel : Nat) :
    AdvancesEval C (Expr.trace fuel) ∧ AdvancesExec C (Stmt.trace fuel) := by
  -- A call runs code that is not part of the tree, so the induction is on the fuel.
  induction fuel with
  | zero => exact ⟨fun _ _ ht => .cut ht, fun _ _ _ ht => .cut ht⟩
  | succ fuel ih => exact ⟨Expr.advances ih.1 ih.2, Stmt.advances ih.1 ih.2⟩

/-- A traced run of a program goes by steps, of which those that make classes make classes of its
declarations or of those that are in the store already. -/
theorem advances_traceAll {body : List Stmt} (hcode : ∀ k ∈ Stmt.classesAll body, C k) {t : Trail}
    (ht : t.machine.Founded C) (fuel : Nat) : (traceAll fuel body).Advances C t fun _ _ => True :=
  (Traced.Advances.sequence (advances_trace C fuel).2 body hcode ht).bind fun _ _ hu _ =>
    .pure hu.founded trivial

end Lox
