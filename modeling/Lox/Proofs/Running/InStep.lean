import Lox.Proofs.Running.Combine
/-!
# Programs that are alike run alike

Two programs that are alike, run on machines that are alike, do the same, and a condition that is an
invariant holds at every stop on the way. One induction on fuel shows this for all programs; what it
says of a program and itself is what it says of single runs.
-/

namespace Lox

variable {α α' : Type} {C : Condition} {L : Likeness} {b : Nat} {E : Prop}

/-- Evaluating expressions that are alike goes in step. -/
def TwinEval (C : Condition) (L : Likeness) (b : Nat) (E : Prop) (eval : Expr → Traced Value)
    (eval' : Expr → Watched Value) : Prop :=
  ∀ e e' t w, e.Like L e' → InStep C L b t w →
    (∀ n ∈ e.nodes, C.Fits t.machine.store t.machine.frame (.here (.expr n))) →
    Twins C L b E (eval e) t (eval' e') w fun a a' _ => a' = a

/-- Executing statements that are alike goes in step. -/
def TwinExec (C : Condition) (L : Likeness) (b : Nat) (E : Prop) (exec : Stmt → Traced Flow)
    (exec' : Stmt → Watched Flow) : Prop :=
  ∀ s s' t w, s.Like L s' → InStep C L b t w →
    (∀ p ∈ s.spots, C.Fits t.machine.store t.machine.frame p) → (∀ d ∈ s.functions, C.Allows d) →
    Twins C L b E (exec s) t (exec' s') w fun a a' _ => a' = a

namespace Twins

variable {t : Trail} {w : Watch}

/-! ### Lists and loops -/

theorem collect {eval : Expr → Traced Value} {eval' : Expr → Watched Value}
    (he : TwinEval C L b E eval eval') {es es' : List Expr}
    (hes : List.Forall₂ (Expr.Like L) es es') (h : InStep C L b t w)
    (hfit : ∀ n ∈ Expr.nodesAll es, C.Fits t.machine.store t.machine.frame (.here (.expr n))) :
    Twins C L b E (Host.collect eval es) t (Host.collect eval' es') w fun a a' _ => a' = a := by
  induction hes generalizing t w with
  | nil => exact pure h rfl
  | cons hl _ ih =>
    apply (he _ _ t w hl h fun n hn => hfit n (List.mem_append_left _ hn)).bind
    rintro _ a u v hu rfl
    apply (ih hu.toInStep fun n hn => hu.fits (hfit n (List.mem_append_right _ hn))).bind
    rintro _ as u' v' hu' rfl
    exact pure hu'.toInStep rfl

theorem sequence {exec : Stmt → Traced Flow} {exec' : Stmt → Watched Flow}
    (he : TwinExec C L b E exec exec') {ss ss' : List Stmt}
    (hss : List.Forall₂ (Stmt.Like L) ss ss') (h : InStep C L b t w)
    (hfit : ∀ p ∈ Stmt.spotsAll ss, C.Fits t.machine.store t.machine.frame p)
    (hallow : ∀ d ∈ Stmt.functionsAll ss, C.Allows d) :
    Twins C L b E (Host.sequence exec ss) t (Host.sequence exec' ss') w fun a a' _ => a' = a := by
  induction hss generalizing t w with
  | nil => exact pure h rfl
  | cons hl _ ih =>
    apply (he _ _ t w hl h (fun p hp => hfit p (List.mem_append_left _ hp))
      fun d hd => hallow d (List.mem_append_left _ hd)).bind
    rintro _ flow u v hu rfl
    cases flow with
    | normal =>
      exact ih hu.toInStep (fun p hp => hu.fits (hfit p (List.mem_append_right _ hp)))
        fun d hd => hallow d (List.mem_append_right _ hd)
    | returned a => exact pure hu.toInStep rfl

theorem loop {test : Traced Bool} {test' : Watched Bool} {body : Traced Flow} {body' : Watched Flow}
    {s : Trail}
    (ht : ∀ u v, Advance C L b s u v → Twins C L b E test u test' v fun a a' _ => a' = a)
    (hb : ∀ u v, Advance C L b s u v → Twins C L b E body u body' v fun a a' _ => a' = a)
    {n n' : Nat} (hn : n ≤ n') (he : E → n = n') (h : Advance C L b s t w) :
    Twins C L b E (Host.loop test body n) t (Host.loop test' body' n') w fun a a' _ => a' = a := by
  induction n generalizing n' t w with
  | zero =>
    refine cut h.toInStep fun hx => ?_
    rw [← he hx]
    rfl
  | succ n ih =>
    obtain ⟨n', rfl⟩ :=
      Nat.exists_eq_succ_of_ne_zero (Nat.ne_of_gt (Nat.lt_of_lt_of_le n.succ_pos hn))
    apply (ht t w h).bind
    rintro _ v u w' hu rfl
    cases v with
    | false => exact pure hu.toInStep rfl
    | true =>
      apply (hb u w' (h.trans hu)).bind
      rintro _ flow u' w'' hu' rfl
      cases flow with
      | returned a => exact pure hu'.toInStep rfl
      | normal =>
        exact ih (Nat.le_of_succ_le_succ hn) (fun hx => Nat.succ.inj (he hx))
          ((h.trans hu).trans hu')

/-- An expression gets to work of its own. -/
theorem node {e e' : Expr} {x : Traced α} {y : Watched α'} {Q : α → α' → Machine → Prop}
    (h : InStep C L b t w) (he : C.Fits t.machine.store t.machine.frame (.here (.expr e)))
    (hx : ∀ u v, Advance C L b t u v → Twins C L b E x u y v Q) :
    Twins C L b E (do Host.note (.node e); x) t (do Host.note (.node e'); y) w Q := by
  refine (note h _ _ fun n hn => ?_).bind fun _ _ u v hu _ => hx u v hu
  cases hn
  exact he

/-! ### Classes and calls -/

/-- The last part of the declaration of a class: the class is added, and its name is bound to it. -/
theorem addClass (hC : C.Invariant) {x x' : Ident} (hx : L.Ident x x') {k k' : Class}
    (hk : k.Like L k') (h : InStep C L b t w)
    (hfit : C.Fits t.machine.store t.machine.frame (.here (.declaration x)))
    (hadd : C.Leads t.machine.store (t.machine.store.addClass k).2) :
    Twins C L b E (do Host.lift (Run.define x.name (← Host.lift (Run.update (·.addClass k))))) t
      (do Host.lift (Run.define x'.name (← Host.lift (Run.update (·.addClass k'))))) w
      fun _ _ _ => True := by
  apply (lift h (.update h.ready h.like hadd (h.like.store.addClass hk))).bind
  rintro v v' u w' hu ⟨hv, hv', -, -⟩
  have hvv : v' = v := by
    rw [hv, hv']
    exact congrArg Value.cls h.like.store.classes.size
  subst hvv
  exact (lift hu.toInStep (.define hu.ready hu.like hC hx (hu.fits hfit) v')).imp
    fun _ _ _ _ => trivial

theorem classDecl (hC : C.Invariant) {s : Span} {x x' : Ident} {p p' : Option Superclass}
    {ms ms' : List FunctionDecl} (hx : L.Ident x x') (hp : Option.Rel L.Superclass p p')
    (hms : List.Forall₂ (FunctionDecl.Like L) ms ms') (h : InStep C L b t w)
    (hfit : ∀ q ∈ (Stmt.classDecl s x p ms).spots, C.Fits t.machine.store t.machine.frame q)
    (hallow : ∀ d ∈ FunctionDecl.functionsAll ms, C.Allows d) :
    Twins C L b E (Host.classDecl x p ms) t (Host.classDecl x' p' ms') w fun _ _ _ => True := by
  have hdecl : C.Fits t.machine.store t.machine.frame (.here (.declaration x)) := by
    cases p <;> exact hfit _ List.mem_cons_self
  apply (lift h (.define h.ready h.like hC hx hdecl .nil)).bind
  rintro _ _ u v hu -
  apply (askSame hu.toInStep hu.like.frame).bind
  rintro _ f u₁ v₁ hu₁ ⟨rfl, rfl, hm₁⟩
  have hu₁ := hu.trans hu₁
  cases hp with
  | none =>
    have hfits : ∀ q ∈ FunctionDecl.spotsAll ms,
        C.Fits u₁.machine.store u₁.machine.frame (q.inMethod false) :=
      fun q hq => hu₁.fits (hfit _ (List.mem_cons_of_mem _ (List.mem_map_of_mem hq)))
    have hadd := hC.plain (x := x.name) hu₁.ready.good hu₁.ready.frame hfits hallow
    rw [← hm₁]
    exact addClass hC hx ⟨hx.name, rfl, Run.methodTable_like _ hms⟩ hu₁.toInStep
      (hu₁.fits hdecl) hadd
  | @some q q' hq =>
    have hnode : C.Fits u₁.machine.store u₁.machine.frame (.here (.expr q.node)) :=
      hu₁.fits (hfit _ (by simp [Stmt.spots, Superclass.sights]))
    refine node hu₁.toInStep hnode fun u₂ v₂ hu₂ => ?_
    apply (lift hu₂.toInStep (.superclassOf hu₂.ready hu₂.like hq)).bind
    rintro _ c u₃ v₃ hu₃ ⟨rfl, -⟩
    have hu₃ := hu₂.trans hu₃
    have hframe := hC.parent c hu₃.ready.good hu₃.ready.frame
    have hfits : ∀ r ∈ FunctionDecl.spotsAll ms,
        C.Fits u₃.machine.store u₃.machine.frame (r.inMethod true) :=
      fun r hr =>
        (hu₁.trans hu₃).fits (hfit _ (by simpa [Stmt.spots] using .inr (.inr ⟨r, hr, rfl⟩)))
    have hadd := hC.subclass (x := x.name) c hu₃.ready.good hu₃.ready.frame hfits hallow
    have hf : u₃.machine.frame = u₁.machine.frame := hu₃.moves.frame
    rw [hf] at hframe hadd
    rw [← hm₁]
    apply (lift hu₃.toInStep (.update hu₃.ready hu₃.like hframe (hu₃.like.store.addFrame _))).bind
    rintro g g' u₄ v₄ hu₄ ⟨hg, hg', hs, -⟩
    have hgg : g' = g := by
      rw [hg, hg']
      exact congrArg Array.size hu₃.like.store.frames
    subst hgg
    have hg : u₃.machine.store.frames.size = g' := hg.symm
    rw [← hs, hg] at hadd
    exact addClass hC hx ⟨hx.name, rfl, Run.methodTable_like _ hms⟩ hu₄.toInStep
      (((hu₁.trans hu₃).trans hu₄).fits hdecl) hadd

/-- A call of a function that is bound, if it is a method. -/
theorem invoke (hC : C.Invariant) {exec : Stmt → Traced Flow} {exec' : Stmt → Watched Flow}
    (he : TwinExec C L b E exec exec') {c c' : Closure} (hc : c.Like L c') (vs : List Value)
    (h : InStep C L b t w) (hfit : ∀ p ∈ c.decl.spots, C.Fits t.machine.store c.scope p)
    (hallow : ∀ d ∈ c.decl.functions, C.Allows d) :
    Twins C L b E (Host.invoke exec c vs) t (Host.invoke exec' c' vs) w fun a a' _ => a' = a := by
  obtain ⟨hframe, hat, hbody⟩ := hC.call vs h.ready.good hfit
  unfold Host.invoke
  rw [Run.bindParameters_like hc.decl.parameters, hc.scope, hc.isInitializer]
  apply (lift h (.update h.ready h.like hframe (h.like.store.addFrame _))).bind
  rintro f f' u v hu ⟨hf, hf', hs, -⟩
  have hff : f' = f := by
    rw [hf, hf']
    exact congrArg Array.size h.like.store.frames
  subst hff
  have hat : C.At u.machine.store f' := by
    rw [hs, hf]
    exact hat
  have hbody : ∀ p ∈ Stmt.spotsAll c.decl.body, C.Fits u.machine.store f' p := by
    rw [hs, hf]
    exact hbody
  refine (inFrame (R := fun a a' => a' = a) hu.toInStep hat fun u₁ v₁ h₁ hm => ?_).bind ?_
  · refine sequence he hc.decl.body h₁ ?_ (c.decl.functions_eq ▸ hallow)
    rw [hm]
    exact hbody
  · rintro _ flow u₁ v₁ hu₁ rfl
    split
    · apply (note hu₁.toInStep (.answer c) (.answer c') fun n hn => by cases hn).bind
      rintro _ _ u₂ v₂ hu₂ -
      apply lift hu₂.toInStep
      apply (Run.Twins.askSame hu₂.ready hu₂.like
        (Store.getAt?_congr hu₂.like.store.frames _ _ _)).bind
      rintro _ a n n' hn hl ⟨rfl, -, -⟩
      exact (Run.Twins.orFault hn.ready hl a _ hc.decl.name.span).imp fun _ _ _ hq => hq.1
    · cases flow <;> exact pure hu₁.toInStep rfl

theorem instantiate (hC : C.Invariant) {exec : Stmt → Traced Flow} {exec' : Stmt → Watched Flow}
    (he : TwinExec C L b E exec exec') (c : ClassId) (vs : List Value) (h : InStep C L b t w) :
    Twins C L b E (Host.instantiate exec c vs) t (Host.instantiate exec' c vs) w
      fun a a' _ => a' = a := by
  have hadd := hC.addInstance c h.ready.good
  apply (lift h (.update h.ready h.like hadd (h.like.store.addInstance _))).bind
  rintro i i' u v hu ⟨hi, hi', hs, -⟩
  have hii : i' = i := by
    rw [hi, hi']
    exact congrArg Array.size h.like.store.instances
  subst hii
  have hinst : u.machine.store.instances[i']? = some ⟨c, .empty⟩ := by
    rw [hs, hi]
    exact Array.getElem?_push_size
  apply (ask hu.toInStep (·.store.method? c initializerName)
    (·.store.method? c initializerName)).bind
  rintro f f' u₁ v₁ hu₁ ⟨rfl, rfl, hm₁⟩
  obtain ⟨hf, hf'⟩ | ⟨f, f', hf, hf', hff⟩ := hu.like.store.method? c initializerName
  · rw [hf, hf']
    exact pure hu₁.toInStep rfl
  · rw [hf, hf']
    rw [← hm₁] at hinst hf
    have hoffer := hC.offersOwn hu₁.ready.good hinst hf
    have hallow := hC.offered hu₁.ready.good hoffer
    obtain ⟨hbind, hfit⟩ := hC.bind hu₁.ready.good hoffer
    obtain ⟨hb, hbs⟩ := hu₁.like.store.bind hff i'
    apply (lift hu₁.toInStep (.update hu₁.ready hu₁.like hbind hbs)).bind
    rintro _ _ u₂ v₂ hu₂ ⟨rfl, rfl, hs₂, -⟩
    apply (invoke hC he hb vs hu₂.toInStep ?_ hallow).bind
    · rintro _ _ u₃ v₃ hu₃ -
      exact pure hu₃.toInStep rfl
    · rw [hs₂]
      exact hfit

theorem enter (hC : C.Invariant) {exec : Stmt → Traced Flow} {exec' : Stmt → Watched Flow}
    (he : TwinExec C L b E exec exec') (callee : Value) (vs : List Value) (h : InStep C L b t w) :
    Twins C L b E (Host.enter exec callee vs) t (Host.enter exec' callee vs) w
      fun a a' _ => a' = a := by
  cases callee with
  | function f =>
    apply (ask h (·.store.functions[f]?) (·.store.functions[f]?)).bind
    rintro c c' u v hu ⟨rfl, rfl, hm⟩
    obtain ⟨hc, hc'⟩ | ⟨c, c', hc, hc', hcc⟩ := h.like.store.functions.items f
    · rw [hc, hc']
      exact pure hu.toInStep rfl
    · rw [hc, hc']
      have hmem := Array.mem_of_getElem? hc
      refine invoke hC he hcc vs hu.toInStep ?_ (hC.functions h.ready.good hmem)
      rw [hm]
      exact hC.spots h.ready.good hmem
  | cls c => exact instantiate hC he c vs h
  | nil | bool | number | string | native | object => exact lift h (.readClock h.ready h.like)

theorem call (hC : C.Invariant) {exec : Stmt → Traced Flow} {exec' : Stmt → Watched Flow}
    (he : TwinExec C L b E exec exec') (callee : Value) (vs : List Value) {paren paren' : Span}
    (hp : L.span paren paren') (h : InStep C L b t w) :
    Twins C L b E (Host.call exec callee vs paren) t (Host.call exec' callee vs paren') w
      fun a a' _ => a' = a := by
  apply (askSame h (h.like.store.arity? callee)).bind
  rintro _ n u v hu ⟨rfl, -, -⟩
  cases n with
  | none => exact fault hu.toInStep _ hp
  | some n =>
    dsimp only
    split
    · exact fault hu.toInStep _ hp
    · have hdeep : decide (v.machine.maxDepth ≤ v.machine.depth) =
          decide (u.machine.maxDepth ≤ u.machine.depth) := by
        rw [hu.like.maxDepth, hu.like.depth]
      apply (askSame hu.toInStep hdeep).bind
      rintro _ deep u₁ v₁ hu₁ ⟨rfl, hd, hm⟩
      cases deep with
      | true => exact fault hu₁.toInStep _ hp
      | false =>
        refine nested hu₁.toInStep ?_ fun u₂ v₂ h₂ _ => enter hC he callee vs h₂
        rw [hm]
        exact Nat.lt_of_not_le (of_decide_eq_false hd)

end Twins

/-! ### Expressions and statements -/

/-- Evaluating and executing go in step with fuel `n` for the first run and `n'` for the second. -/
structure TwinPrograms (C : Condition) (L : Likeness) (b : Nat) (E : Prop) (n n' : Nat) : Prop where
  eval : TwinEval C L b E (Expr.trace n) (Expr.watch n')
  exec : TwinExec C L b E (Stmt.trace n) (Stmt.watch n')

namespace TwinPrograms

open Twins

variable {n n' : Nat}

private theorem eval_succ (hC : C.Invariant) (ih : TwinPrograms C L b E n n') :
    TwinEval C L b E (Expr.trace (n + 1)) (Expr.watch (n' + 1)) := by
  intro e e' t w he h hfit
  have hself := hfit e e.self_mem_nodes
  cases he with
  | literal hs => exact pure h rfl
  | grouping hs he => exact ih.eval _ _ t w he h fun n hn => hfit n (by simp [Expr.nodes, hn])
  | unary hs ht he =>
    apply (ih.eval _ _ t w he h fun n hn => hfit n (by simp [Expr.nodes, hn])).bind
    rintro _ v u w' hu rfl
    refine node hu.toInStep (hu.fits hself) fun u₁ v₁ hu₁ => ?_
    exact lift hu₁.toInStep (.ofExcept hu₁.ready hu₁.like _ ht)
  | @binary _ _ l _ op _ _ r _ hs hl ht hr =>
    apply (ih.eval _ _ t w hl h fun n hn => hfit n (by simp [Expr.nodes, hn])).bind
    rintro _ v u w' hu rfl
    apply (ih.eval _ _ u w' hr hu.toInStep fun n hn =>
      hu.fits (hfit n (by simp [Expr.nodes, hn]))).bind
    rintro _ v' u₁ w₁ hu₁ rfl
    refine node hu₁.toInStep ((hu.trans hu₁).fits hself) fun u₂ w₂ hu₂ => ?_
    exact lift hu₂.toInStep (.ofExcept hu₂.ready hu₂.like _ ht)
  | @logical _ _ l _ op r _ hs hl hr =>
    apply (ih.eval _ _ t w hl h fun n hn => hfit n (by simp [Expr.nodes, hn])).bind
    rintro _ v u w' hu rfl
    split
    · exact pure hu.toInStep rfl
    · exact ih.eval _ _ u w' hr hu.toInStep fun n hn => hu.fits (hfit n (by simp [Expr.nodes, hn]))
  | var hs hx =>
    refine node h hself fun u v hu => ?_
    exact (lift hu.toInStep (.lookUp hu.ready hu.like hs.id hx.name hx.span)).imp
      fun _ _ _ hq => hq.1
  | assign hs hx he =>
    apply (ih.eval _ _ t w he h fun n hn => hfit n (by simp [Expr.nodes, hn])).bind
    rintro _ v u w' hu rfl
    refine node hu.toInStep (hu.fits hself) fun u₁ w₁ hu₁ => ?_
    apply (lift hu₁.toInStep
      (.assign hu₁.ready hu₁.like hC hs hx ((hu.trans hu₁).fits hself) v)).bind
    rintro _ _ u₂ w₂ hu₂ -
    exact pure hu₂.toInStep rfl
  | call hs hf ht hes =>
    apply (ih.eval _ _ t w hf h fun n hn => hfit n (by simp [Expr.nodes, hn])).bind
    rintro _ callee u w' hu rfl
    apply (collect ih.eval hes hu.toInStep fun n hn =>
      hu.fits (hfit n (by simp [Expr.nodes, hn]))).bind
    rintro _ vs u₁ w₁ hu₁ rfl
    refine node hu₁.toInStep ((hu.trans hu₁).fits hself) fun u₂ w₂ hu₂ => ?_
    exact call hC ih.exec callee vs ht hu₂.toInStep
  | get hs he hx =>
    apply (ih.eval _ _ t w he h fun n hn => hfit n (by simp [Expr.nodes, hn])).bind
    rintro _ v u w' hu rfl
    refine node hu.toInStep (hu.fits hself) fun u₁ w₁ hu₁ => ?_
    exact lift hu₁.toInStep (.property hu₁.ready hu₁.like hC v hx)
  | set hs he hx hv =>
    apply (ih.eval _ _ t w he h fun n hn => hfit n (by simp [Expr.nodes, hn])).bind
    rintro _ object u w' hu rfl
    refine node hu.toInStep (hu.fits hself) fun u₁ w₁ hu₁ => ?_
    have hu₁ := hu.trans hu₁
    cases object with
    | object i =>
      apply (ih.eval _ _ u₁ w₁ hv hu₁.toInStep fun n hn =>
        hu₁.fits (hfit n (by simp [Expr.nodes, hn]))).bind
      rintro _ v u₂ w₂ hu₂ rfl
      rw [hx.name]
      apply (lift hu₂.toInStep (.update hu₂.ready hu₂.like (hC.setField i _ v hu₂.ready.good)
        (hu₂.like.store.setField i _ v))).bind
      rintro _ _ u₃ w₃ hu₃ -
      exact pure hu₃.toInStep rfl
    | nil | bool | number | string | function | cls | native => exact fault hu₁.toInStep _ hx.span
  | this hs =>
    refine node h hself fun u v hu => ?_
    exact (lift hu.toInStep (.lookUp hu.ready hu.like hs.id rfl hs.span)).imp fun _ _ _ hq => hq.1
  | super hs hx =>
    refine node h hself fun u v hu => ?_
    exact lift hu.toInStep (.superMethod hu.ready hu.like hC hs hx (hu.fits hself))

/-- An expression in a statement. -/
theorem evalIn (ih : TwinPrograms C L b E n n') {e e' : Expr} (he : e.Like L e') {t : Trail}
    {w : Watch} (h : InStep C L b t w)
    (hfit : ∀ p ∈ e.spots, C.Fits t.machine.store t.machine.frame p) :
    Twins C L b E (e.trace n) t (e'.watch n') w fun a a' _ => a' = a :=
  ih.eval e e' t w he h fun _ hn => hfit _ (List.mem_map_of_mem (List.mem_map_of_mem hn))

private theorem exec_succ (hC : C.Invariant) (hn : n ≤ n') (he : E → n = n')
    (ih : TwinPrograms C L b E n n') :
    TwinExec C L b E (Stmt.trace (n + 1)) (Stmt.watch (n' + 1)) := by
  intro s s' t w hs h hfit hallow
  cases hs with
  | expr _ he =>
    apply (ih.evalIn he h hfit).bind
    rintro _ v u w' hu -
    exact pure hu.toInStep rfl
  | print ht he =>
    apply (ih.evalIn he h fun p hp => hfit p (List.mem_append_left _ hp)).bind
    rintro _ v u w' hu rfl
    apply (note hu.toInStep (.print _) (.print _) fun n hn => by cases hn).bind
    rintro _ _ u₁ w₁ hu₁ -
    apply (lift hu₁.toInStep (.printText hu₁.ready hu₁.like v ht)).bind
    rintro _ _ u₂ w₂ hu₂ -
    exact pure hu₂.toInStep rfl
  | var _ hx he =>
    cases he with
    | none =>
      apply (lift h (.define h.ready h.like hC hx (hfit _ List.mem_cons_self) .nil)).bind
      rintro _ _ u w' hu -
      exact pure hu.toInStep rfl
    | some he =>
      apply (ih.evalIn he h fun p hp => hfit p (List.mem_cons_of_mem _ hp)).bind
      rintro _ v u w' hu rfl
      apply (lift hu.toInStep
        (.define hu.ready hu.like hC hx (hu.fits (hfit _ List.mem_cons_self)) v)).bind
      rintro _ _ u₁ w₁ hu₁ -
      exact pure hu₁.toInStep rfl
  | block _ hb =>
    -- Both machines make a frame of the same number, since they have equally many.
    apply (askSame h h.like.frame).bind
    rintro _ f u w' hu ⟨rfl, rfl, hm⟩
    obtain ⟨hframe, hat, hbody⟩ := hC.block hu.ready.good hu.ready.frame
    rw [show u.machine.frame = t.machine.frame from hu.moves.frame] at hframe hat hbody
    apply (lift hu.toInStep (.update hu.ready hu.like hframe (hu.like.store.addFrame _))).bind
    rintro f f' u₁ w₁ hu₁ ⟨hf, hf', hs, -⟩
    have hff : f' = f := by
      rw [hf, hf']
      exact congrArg Array.size hu.like.store.frames
    have hf : u.machine.store.frames.size = f := hf.symm
    subst hff
    rw [← hs, hf] at hat hbody
    refine inFrame (R := fun a a' => a' = a) hu₁.toInStep hat fun u₂ w₂ h₂ hm₂ => ?_
    refine sequence ih.exec hb h₂ ?_ hallow
    rw [hm₂]
    exact fun p hp => hbody p (hu.moves.leads.spots _ _ (hfit _ (List.mem_map_of_mem hp)))
  | ifElse _ hc hs hno =>
    cases hno with
    | none =>
      apply (ih.evalIn hc h fun p hp => hfit p (by simp [Stmt.spots, hp])).bind
      rintro _ v u w' hu rfl
      split
      · exact ih.exec _ _ u w' hs hu.toInStep
          (fun p hp => hu.fits (hfit p (by simp [Stmt.spots, hp]))) hallow
      · exact pure hu.toInStep rfl
    | some hno =>
      apply (ih.evalIn hc h fun p hp => hfit p (by simp [Stmt.spots, hp])).bind
      rintro _ v u w' hu rfl
      split
      · exact ih.exec _ _ u w' hs hu.toInStep
          (fun p hp => hu.fits (hfit p (by simp [Stmt.spots, hp])))
          fun d hd => hallow d (List.mem_append_left _ hd)
      · exact ih.exec _ _ u w' hno hu.toInStep
          (fun p hp => hu.fits (hfit p (by simp [Stmt.spots, hp])))
          fun d hd => hallow d (List.mem_append_right _ hd)
  | whileLoop _ hc hs =>
    refine loop (s := t) (fun u v hu => ?_) (fun u v hu => ?_) hn he h.advance
    · refine (ih.evalIn hc hu.toInStep fun p hp =>
        hu.fits (hfit p (by simp [Stmt.spots, hp]))).map ?_
      rintro a _ _ rfl
      rfl
    · exact ih.exec _ _ u v hs hu.toInStep
        (fun p hp => hu.fits (hfit p (by simp [Stmt.spots, hp]))) hallow
  | function hd =>
    apply (lift h (.functionDecl h.ready h.like hC hd hfit hallow)).bind
    rintro _ _ u w' hu -
    exact pure hu.toInStep rfl
  | classDecl _ hx hp hms =>
    apply (classDecl hC hx hp hms h hfit hallow).bind
    rintro _ _ u w' hu -
    exact pure hu.toInStep rfl
  | returning _ _ he =>
    cases he with
    | none => exact pure h rfl
    | some he =>
      apply (ih.evalIn he h fun p hp => hfit p (List.mem_cons_of_mem _ hp)).bind
      rintro _ v u w' hu rfl
      exact pure hu.toInStep rfl

end TwinPrograms

/-- Programs that are alike run in step, with any fuel. -/
theorem twinPrograms (hC : C.Invariant) {n n' : Nat} (hn : n ≤ n') (he : E → n = n') :
    TwinPrograms C L b E n n' := by
  -- On both fuels at once: the second run has as much as the first, and exactly as much where
  -- the ends must agree.
  induction n generalizing n' with
  | zero =>
    have hzero : E → n' = 0 := fun hx => (he hx).symm
    constructor
    · intro e e' t w _ h _
      refine .cut h fun hx => ?_
      rw [hzero hx]
      rfl
    · intro s s' t w _ h _ _
      refine .cut h fun hx => ?_
      rw [hzero hx]
      rfl
  | succ n ih =>
    obtain ⟨n', rfl⟩ :=
      Nat.exists_eq_succ_of_ne_zero (Nat.ne_of_gt (Nat.lt_of_lt_of_le n.succ_pos hn))
    have hn := Nat.le_of_succ_le_succ hn
    have he : E → n = n' := fun hx => Nat.succ.inj (he hx)
    have ih := ih hn he
    exact ⟨ih.eval_succ hC, ih.exec_succ hC hn he⟩

/-- Whole programs that are alike run in step. -/
theorem twins_traceAll (hC : C.Invariant) {n n' : Nat} (hn : n ≤ n') (he : E → n = n')
    {ss ss' : List Stmt} (hss : List.Forall₂ (Stmt.Like L) ss ss') {t : Trail} {w : Watch}
    (h : InStep C L b t w) (hfit : ∀ p ∈ Stmt.spotsAll ss, C.Fits t.machine.store t.machine.frame p)
    (hallow : ∀ d ∈ Stmt.functionsAll ss, C.Allows d) :
    Twins C L b E (traceAll n ss) t (watchAll n' ss') w fun a a' _ => a' = a := by
  apply (Twins.sequence (twinPrograms hC hn he).exec hss h hfit hallow).bind
  rintro _ _ u v hu -
  exact .pure hu.toInStep rfl

end Lox
