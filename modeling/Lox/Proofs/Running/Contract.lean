import Lox.Proofs.Running.Frames
import Lox.Proofs.Running.Safe
import Lox.Proofs.Scoping.Agreement
/-!
# The contract between resolving and running

The walk that resolves names opens and closes a scope exactly where the evaluator makes and leaves
a frame. So an expression or a statement that is evaluated in frames that mirror the scopes of its
visit is safe, and so is all that it calls: the frames of a function were made where its
declaration was visited.
-/

namespace Lox

variable {V : Visit → Prop} {D : Distances} {K : FrameId → Prop} {α : Type} {w : Watch}

/-- Evaluating expressions is safe. -/
def SafeEval (V : Visit → Prop) (D : Distances) (eval : Expr → Watched Value) : Prop :=
  ∀ (e : Expr) (c : Context) (w : Watch), w.Sound V D → (∀ n ∈ e.nodes, V ⟨.expr n, c⟩) →
    w.machine.store.Mirrors w.machine.frame c.scopes →
    Safe V D (fun _ => True) (eval e) w fun _ _ => True

/-- Executing statements is safe, and defines the name that a statement declares. -/
def SafeExec (V : Visit → Prop) (D : Distances) (exec : Stmt → Watched Flow) : Prop :=
  ∀ (s : Stmt) (u : Walk) (w : Watch), w.Sound V D → (∀ v ∈ s.visits u, V v) →
    w.machine.store.Mirrors w.machine.frame u.scopes →
    Safe V D (· ≠ w.machine.frame) (exec s) w fun flow v =>
      flow = .normal → v.machine.store.Mirrors v.machine.frame (defined s.declares? u.scopes)

/-! ### Combinators -/

theorem Safe.collect {eval : Expr → Watched Value} (he : SafeEval V D eval) (es : List Expr)
    {c : Context} (hw : w.Sound V D) (hV : ∀ n ∈ Expr.nodesAll es, V ⟨.expr n, c⟩)
    (hm : w.machine.store.Mirrors w.machine.frame c.scopes) :
    Safe V D (fun _ => True) (Host.collect eval es) w fun _ _ => True := by
  induction es generalizing w with
  | nil => exact .pure hw trivial
  | cons e es ih =>
    apply (he e c w hw (fun n hn => hV n (List.mem_append_left _ hn)) hm).bind
    intro a v hk _
    have hmv := hk.machine.mirrors hw.store hm trivial
    apply (ih hk.sound (fun n hn => hV n (List.mem_append_right _ hn)) hmv).bind
    intro as u hku _
    exact .pure hku.sound trivial

theorem Safe.sequence {exec : Stmt → Watched Flow} (he : SafeExec V D exec)
    (hp : ∀ v, V v → v.sight.Proper) (ss : List Stmt) {u : Walk} (hw : w.Sound V D)
    (hV : ∀ v ∈ Stmt.visitsAll u ss, V v) (hm : w.machine.store.Mirrors w.machine.frame u.scopes) :
    Safe V D (· ≠ w.machine.frame) (Host.sequence exec ss) w fun _ _ => True := by
  induction ss generalizing w u with
  | nil => exact .pure hw trivial
  | cons s ss ih =>
    have hs : ∀ v ∈ s.visits u, V v := fun v hv => hV v (List.mem_append_left _ hv)
    apply (he s u w hw hs hm).bind
    intro flow v hk hflow
    cases flow with
    | returned a => exact .pure hk.sound trivial
    | normal =>
      have hc := congrArg Context.scopes (s.context_resolve u fun v hv => hp v (hs v hv))
      have hmv : v.machine.store.Mirrors v.machine.frame (s.resolve u).scopes := by
        rw [show (s.resolve u).scopes = _ from hc]
        exact hflow rfl
      have h := ih hk.sound (fun v hv => hV v (List.mem_append_right _ hv)) hmv
      rwa [hk.machine.frame] at h

theorem Safe.loop {test : Watched Bool} {body : Watched Flow} {cs : List Scope} {f : FrameId}
    (ht : ∀ w : Watch, w.Sound V D → w.machine.frame = f → w.machine.store.Mirrors f cs →
      Safe V D (fun _ => True) test w fun _ _ => True)
    (hb : ∀ w : Watch, w.Sound V D → w.machine.frame = f → w.machine.store.Mirrors f cs →
      Safe V D (· ≠ f) body w fun flow v => flow = .normal → v.machine.store.Mirrors f cs)
    (n : Nat) (hw : w.Sound V D) (hf : w.machine.frame = f) (hm : w.machine.store.Mirrors f cs) :
    Safe V D (· ≠ f) (Host.loop test body n) w
      fun flow v => flow = .normal → v.machine.store.Mirrors f cs := by
  induction n generalizing w with
  | zero => exact .cut hw
  | succ n ih =>
    have htest : Safe V D (· ≠ f) test w fun _ v => v.machine.store.Mirrors f cs := by
      apply (ht w hw hf hm).mono (fun v hk => hk.weaken fun _ _ => trivial)
      intro b v hk _
      have hmv := hk.machine.mirrors hw.store (hf ▸ hm) trivial
      rwa [hk.machine.frame, hf] at hmv
    apply htest.bind
    intro b v hk hmv
    cases b with
    | false => exact .pure hk.sound fun _ => hmv
    | true =>
      apply (hb v hk.sound (hk.machine.frame.trans hf) hmv).bind
      intro flow u hku hmu
      cases flow with
      | returned a => exact .pure hku.sound fun h => by cases h
      | normal => exact ih hku.sound (hku.machine.frame.trans (hk.machine.frame.trans hf)) (hmu rfl)

/-- An expression gets to work of its own. -/
theorem Safe.node {e : Expr} {c : Context} {x : Watched α} {Q : α → Watch → Prop} (hw : w.Sound V D)
    (he : V ⟨.expr e, c⟩) (hm : w.machine.store.Mirrors w.machine.frame c.scopes)
    (hx : ∀ v : Watch, v.Sound V D → v.machine = w.machine →
      v.moments = ⟨.node e, w.machine⟩ :: w.moments → Safe V D K x v Q) :
    Safe V D K (do Host.note (.node e); x) w Q :=
  (note (e := .node e) hw ⟨hw.store, hw.distances, c, he, hm⟩).bind fun _ v hk hv =>
    hx v hk.sound hv.1 hv.2

/-! ### Declarations -/

theorem Safe.define (hw : w.Sound V D) {x : String} (hx : Plain x) {cs : List Scope}
    (hm : w.machine.store.Mirrors w.machine.frame cs) (a : Value) :
    Safe V D (· ≠ w.machine.frame) (Host.lift (Run.define x a)) w
      fun _ v => v.machine.frame = w.machine.frame ∧
        v.machine.store.Mirrors w.machine.frame (defined (some x) cs) := by
  refine (Safe.lift hw (Run.Keeps.define hw.store hx a)).imp fun _ v hk hv => ⟨hk.machine.frame, ?_⟩
  rw [hv]
  exact hm.define (hm.covers.lt_size hw.store.size) x a

theorem Safe.functionDecl (hw : w.Sound V D) {u : Walk} {d : FunctionDecl}
    (hm : w.machine.store.Mirrors w.machine.frame u.scopes) (hx : Plain d.name.name)
    (hd : ∀ v ∈ d.visits ((u.declare d.name).define d.name.name) .function, V v) :
    Safe V D (· ≠ w.machine.frame) (Host.lift (Run.functionDecl d)) w
      fun _ v => v.machine.store.Mirrors v.machine.frame (defined (some d.name.name) u.scopes) := by
  let t := (w.machine.store.addFunction ⟨d, w.machine.frame, false⟩).2
  have hst : Store.Grows (· ≠ w.machine.frame) w.machine.store t := .of_frames_eq rfl
  have htm : t.Mirrors w.machine.frame u.scopes := ⟨hm.covers.mono hst, hm.exact⟩
  have hrun : Run.Keeps V (· ≠ w.machine.frame) [] (Run.functionDecl d) w.machine fun _ n =>
      n.store.Mirrors n.frame (defined (some d.name.name) u.scopes) := by
    refine ⟨⟨hw.store.declareFunction hm hx hd, ?_, rfl, rfl⟩, ?_⟩
    · exact hst.trans (.define t w.machine.frame d.name.name _)
    · exact htm.define (hm.covers.lt_size hw.store.size) d.name.name _
  exact Safe.lift hw hrun

/-- A class is added, and its name is bound again. -/
theorem Safe.addClass (hw : w.Sound V D) {x : String} (hx : Plain x) {cs : List Scope}
    (hm : w.machine.store.Mirrors w.machine.frame (defined (some x) cs)) {c : Class}
    (hc : ∀ y m, c.methods.find? y = some m → m.Method V w.machine.store) :
    Safe V D (· ≠ w.machine.frame)
      (do
        let v ← Host.lift (Run.update (·.addClass c))
        Host.lift (Run.define x v)) w
      fun _ v => v.machine.store.Mirrors v.machine.frame (defined (some x) cs) := by
  apply (Safe.lift hw (Run.Keeps.update _ (hw.store.addClass hc) (.of_frames_eq rfl))).bind
  intro a v hk hv
  have hf := hk.machine.frame
  have hmv : v.machine.store.Mirrors v.machine.frame (defined (some x) cs) := by
    rw [hv.2]
    exact ⟨hm.covers.mono (K := fun _ => True) (.of_frames_eq rfl), hm.exact⟩
  have hdef := Safe.define hk.sound hx hmv a
  rw [hf] at hdef
  apply hdef.imp
  intro _ u _ hu
  rw [hu.1]
  simpa using hu.2

theorem Safe.classDecl (hw : w.Sound V D) (hp : ∀ v, V v → v.sight.Proper) {u : Walk} {x : Ident}
    {parent : Option Superclass} {ms : List FunctionDecl} {t : Span}
    (hm : w.machine.store.Mirrors w.machine.frame u.scopes)
    (hV : ∀ v ∈ (Stmt.classDecl t x parent ms).visits u, V v) :
    Safe V D (· ≠ w.machine.frame) (Host.classDecl x parent ms) w
      fun _ v => v.machine.store.Mirrors v.machine.frame (defined (some x.name) u.scopes) := by
  have hx : Plain x.name := hp _ (hV _ (List.mem_append_left _ List.mem_cons_self))
  have hmethods := fun v hv => hV v (List.mem_append_right _ hv)
  have hscopes := congrArg Context.scopes (u.context_enterClass x parent)
  apply (Safe.define hw hx hm .nil).bind
  intro _ v₀ hk hv
  obtain ⟨hf, hmv⟩ := hv
  apply (Safe.ask hk.sound _).bind
  intro frame v hk h
  obtain ⟨rfl, rfl⟩ := h
  rw [← hf] at hmv ⊢
  cases parent with
  | none => exact Safe.addClass hk.sound hx hmv (hmv.covers.methods hscopes hmethods)
  | some p =>
    have hnode : V ⟨.expr p.node, _⟩ := hV _ (List.mem_append_left _
      (List.mem_cons_of_mem _ (List.mem_cons_of_mem _ List.mem_cons_self)))
    have hin : v.machine.store.Mirrors v.machine.frame
        (({ u with classKind := .plain }.declare x).define x.name).scopes := by
      rwa [Walk.scopes_declare_define]
    apply Safe.node hk.sound hnode hin
    intro a ha hma hmo
    apply (Safe.work ha hmo (Run.Keeps.superclassOf ha.store p)).bind
    intro c b hkb hb
    have hbv : b.machine = v.machine := hb.trans hma
    refine (Safe.lift hkb.sound (Run.Keeps.update _ (hkb.sound.store.addSuper c _)
      (.addFrame _ _))).bind
      fun g e hke he => ?_
    obtain ⟨rfl, he⟩ := he
    rw [hbv] at he
    have hme : e.machine.store.Mirrors e.machine.frame (defined (some x.name) u.scopes) := by
      rw [he]
      exact hmv.mono (.addFrame (K := fun _ => True) _ _)
        (hmv.covers.lt_size hk.sound.store.size) trivial
    have hcov : e.machine.store.Covers b.machine.store.frames.size
        (Table.empty.insert "super" true :: defined (some x.name) u.scopes) := by
      rw [he, hbv]
      exact hmv.covers.addSuper c
    have h := Safe.addClass (c := ⟨x.name, some c, _⟩) hke.sound hx hme
      (hcov.methods hscopes hmethods)
    have hframe : e.machine.frame = v.machine.frame := by rw [he]
    rw [hframe] at h
    exact h

/-! ### Calls -/

/-- A call runs the body of a function in a frame that mirrors the scope of its parameters. -/
theorem Safe.invoke {exec : Stmt → Watched Flow} (he : SafeExec V D exec)
    (hp : ∀ v, V v → v.sight.Proper) {c : Closure} {vs : List Value} (hw : w.Sound V D)
    (hc : c.Sound V w.machine.store) (hn : vs.length = c.decl.parameters.length) :
    Safe V D (fun _ => True) (Host.invoke exec c vs) w fun _ _ => True := by
  refine Safe.of_lt ?_
  obtain ⟨u, kind, cs, hu, hcov, hV⟩ := hc.visited
  obtain ⟨decl, scope, isInitializer⟩ := c
  obtain rfl : u.scopes = cs := hu
  obtain ⟨hadd, hm, hbody⟩ := hw.store.enter hp hcov hV hn
  apply (Safe.lift hw (Run.Keeps.update _ hadd (.addFrame _ _))).bind
  intro g v hk hv
  obtain ⟨rfl, hv⟩ := hv
  rw [show (w.machine.store.addFrame _).2 = v.machine.store by rw [hv]] at hm
  have hin : Watch.Sound V D { v with machine.frame := w.machine.store.frames.size } :=
    ⟨hk.sound.store, hk.sound.distances, hk.sound.moments⟩
  have hrun : Safe V D (· < w.machine.store.frames.size) (Host.sequence exec decl.body)
      { v with machine.frame := w.machine.store.frames.size } fun _ _ => True :=
    (Safe.sequence he hp decl.body hin hbody hm).weaken fun f hf => Nat.ne_of_lt hf
  apply hrun.inFrame.bind
  intro flow e hke _
  split
  · rename_i hi
    have hthis := (hk.trans hke).machine.grows.bound _ _ (hc.receiver hi)
    refine (Safe.note (e := .answer _) hke.sound ⟨hke.sound.store, hke.sound.distances, hthis⟩).bind
      fun _ a hka ha => ?_
    have hanswer : Run.Keeps V (· < w.machine.store.frames.size) []
        (do Run.orFault (← Run.ask (·.store.getAt? scope 0 "this")) (.undefinedVariable "this") decl.name.span)
        a.machine fun _ _ => True := by
      apply (Run.Keeps.ask hka.sound.store _).bind
      intro x n _ hx
      obtain ⟨rfl, rfl⟩ := hx
      rw [ha.1, Store.getAt?_zero]
      obtain ⟨i, hi⟩ := Option.isSome_iff_exists.mp hthis
      rw [hi]
      exact .pure (ha.1 ▸ hke.sound.store) trivial
    exact (Safe.lift hka.sound hanswer).imp fun _ _ _ _ => trivial
  · cases flow <;> exact .pure hke.sound trivial

theorem Safe.instantiate {exec : Stmt → Watched Flow} (he : SafeExec V D exec)
    (hp : ∀ v, V v → v.sight.Proper) {c : ClassId} {vs : List Value} (hw : w.Sound V D)
    (hn : vs.length = w.machine.store.classArity c) :
    Safe V D (fun _ => True) (Host.instantiate exec c vs) w fun _ _ => True := by
  refine (Safe.lift hw (Run.Keeps.update _ (hw.store.addInstance _) (.of_frames_eq rfl))).bind
    fun i v₀ hk hv => ?_
  apply (Safe.ask hk.sound _).bind
  intro m v hkv h
  obtain ⟨hm, rfl⟩ := h
  cases m with
  | none => exact .pure hk.sound trivial
  | some m =>
    have hmw : w.machine.store.method? c initializerName = some m := by
      have hcls : v.machine.store.classes = w.machine.store.classes := by rw [hv.2]; rfl
      rw [hm, Store.method?_congr hcls]
    have hlen : vs.length = m.decl.parameters.length := by
      rw [hn, Store.classArity, hmw]
    have hmethod := hkv.sound.store.method? hm.symm
    obtain ⟨hs, hb⟩ := hkv.sound.store.bind hmethod i
    apply (Safe.lift hkv.sound (Run.Keeps.update _ hs (.bind _ m i))).bind
    intro b e hke h
    obtain ⟨rfl, h⟩ := h
    have hbe : (v.machine.store.bind m i).1.Sound V e.machine.store := by
      rw [h]
      exact hb
    exact (Safe.invoke he hp hke.sound hbe hlen).bind fun _ a hka _ => .pure hka.sound trivial

theorem Safe.enter {exec : Stmt → Watched Flow} (he : SafeExec V D exec)
    (hp : ∀ v, V v → v.sight.Proper) {callee : Value} {vs : List Value} (hw : w.Sound V D)
    (hn : w.machine.store.arity? callee = some vs.length) :
    Safe V D (fun _ => True) (Host.enter exec callee vs) w fun _ _ => True := by
  cases callee with
  | function f =>
    apply (Safe.ask hw _).bind
    intro c v hk h
    obtain ⟨rfl, rfl⟩ := h
    cases hc : v.machine.store.functions[f]? with
    | none => exact .pure hw trivial
    | some c =>
      have hlen : vs.length = c.decl.parameters.length := by
        simpa [Store.arity?, hc] using hn.symm
      exact Safe.invoke he hp hw (hw.store.functions c (Array.mem_of_getElem? hc)) hlen
  | cls c =>
    exact Safe.instantiate he hp hw (Option.some.inj hn).symm
  | nil | bool | number | string | native | object =>
    exact (Safe.lift hw (Run.Keeps.readClock hw.store)).imp fun _ _ _ _ => trivial

theorem Safe.call {exec : Stmt → Watched Flow} (he : SafeExec V D exec)
    (hp : ∀ v, V v → v.sight.Proper) {callee : Value} {vs : List Value} {paren : Span}
    (hw : w.Sound V D) {m : Moment} {ms : List Moment} (hm : w.moments = m :: ms)
    (hs : paren ∈ m.event.spans) :
    Safe V D (fun _ => True) (Host.call exec callee vs paren) w fun _ _ => True := by
  apply (Safe.ask hw _).bind
  intro n v hk h
  obtain ⟨hn, rfl⟩ := h
  cases n with
  | none => exact .fault hw hm _ hs
  | some n =>
    dsimp only
    split
    · exact .fault hw hm _ hs
    · rename_i hlen
      apply (Safe.ask hw _).bind
      intro deep v' hk' h
      obtain ⟨-, rfl⟩ := h
      split
      · exact .fault hw hm _ hs
      · have harity : v'.machine.store.arity? callee = some vs.length := by
          rw [← hn, Decidable.not_not.mp hlen]
        exact (Safe.enter (w := { v' with machine.depth := v'.machine.depth + 1 }) he hp
          ⟨hw.store, hw.distances, hw.moments⟩ harity).nested

/-! ### Expressions and statements -/

variable {fuel : Nat}

theorem SafeEval.succ (hV : ∀ v, V v → v.Faultless) (he : SafeEval V D (Expr.watch fuel))
    (hx : SafeExec V D (Stmt.watch fuel)) : SafeEval V D (Expr.watch (fuel + 1)) := by
  have hp : ∀ v, V v → v.sight.Proper := fun v hv => (hV v hv).proper
  intro e c w hw hn hm
  have hself : V ⟨.expr e, c⟩ := hn e e.self_mem_nodes
  cases e with
  | literal s l =>
    exact .pure hw trivial
  | grouping s e =>
    exact he e c w hw (fun n h => hn n (List.mem_append_left _ h)) hm
  | unary s op t e =>
    apply (he e c w hw (fun n h => hn n (List.mem_append_left _ h)) hm).bind
    intro a v hk _
    refine .node hk.sound hself (hk.machine.mirrors hw.store hm trivial) fun u hu _ hmo => ?_
    exact (Safe.work hu hmo (.ofExcept hu.store _ (List.mem_singleton_self _))).imp
      fun _ _ _ _ => trivial
  | binary s l op t r =>
    have hl : ∀ n ∈ l.nodes, V ⟨.expr n, c⟩ := fun n h =>
      hn n (List.mem_append_left _ (List.mem_append_left _ h))
    have hr : ∀ n ∈ r.nodes, V ⟨.expr n, c⟩ := fun n h =>
      hn n (List.mem_append_left _ (List.mem_append_right _ h))
    apply (he l c w hw hl hm).bind
    intro a v hk _
    have hmv := hk.machine.mirrors hw.store hm trivial
    apply (he r c v hk.sound hr hmv).bind
    intro b u hku _
    refine .node hku.sound hself (hku.machine.mirrors hk.sound.store hmv trivial) fun x hx _ hmo =>
      ?_
    exact (Safe.work hx hmo (.ofExcept hx.store _ (List.mem_singleton_self _))).imp
      fun _ _ _ _ => trivial
  | logical s l op r =>
    have hl : ∀ n ∈ l.nodes, V ⟨.expr n, c⟩ := fun n h =>
      hn n (List.mem_append_left _ (List.mem_append_left _ h))
    have hr : ∀ n ∈ r.nodes, V ⟨.expr n, c⟩ := fun n h =>
      hn n (List.mem_append_left _ (List.mem_append_right _ h))
    apply (he l c w hw hl hm).bind
    intro a v hk _
    split
    · exact .pure hk.sound trivial
    · exact he r c v hk.sound hr (hk.machine.mirrors hw.store hm trivial)
  | var s x =>
    refine .node hw hself hm fun u hu _ hmo => ?_
    exact (Safe.work hu hmo (.lookUp hu.store _ _ (by simp [Event.spans, Sight.spans]))).imp
      fun _ _ _ _ => trivial
  | assign s x e =>
    apply (he e c w hw (fun n h => hn n (List.mem_append_left _ h)) hm).bind
    intro a v hk _
    refine .node hk.sound hself (hk.machine.mirrors hw.store hm trivial) fun u hu _ hmo => ?_
    refine (Safe.work hu hmo
      (.assign hu.store (hp _ hself) _ _ (List.mem_singleton_self _))).bind ?_
    exact fun _ y hy _ => .pure hy.sound trivial
  | call s f t es =>
    have hf : ∀ n ∈ f.nodes, V ⟨.expr n, c⟩ := fun n h =>
      hn n (List.mem_append_left _ (List.mem_append_left _ h))
    have hes : ∀ n ∈ Expr.nodesAll es, V ⟨.expr n, c⟩ := fun n h =>
      hn n (List.mem_append_left _ (List.mem_append_right _ h))
    apply (he f c w hw hf hm).bind
    intro a v hk _
    have hmv := hk.machine.mirrors hw.store hm trivial
    apply (Safe.collect he es hk.sound hes hmv).bind
    intro b u hku _
    refine .node hku.sound hself (hku.machine.mirrors hk.sound.store hmv trivial) fun y hy _ hmo =>
      ?_
    exact .call hx hp hy hmo (List.mem_singleton_self _)
  | get s e x =>
    apply (he e c w hw (fun n h => hn n (List.mem_append_left _ h)) hm).bind
    intro a v hk _
    refine .node hk.sound hself (hk.machine.mirrors hw.store hm trivial) fun u hu _ hmo => ?_
    exact (Safe.work hu hmo (.property hu.store _ (List.mem_singleton_self _))).imp
      fun _ _ _ _ => trivial
  | set s e x value =>
    have hv : ∀ n ∈ value.nodes, V ⟨.expr n, c⟩ := fun n h =>
      hn n (List.mem_append_left _ (List.mem_append_left _ h))
    have ho : ∀ n ∈ e.nodes, V ⟨.expr n, c⟩ := fun n h =>
      hn n (List.mem_append_left _ (List.mem_append_right _ h))
    apply (he e c w hw ho hm).bind
    intro a v hk _
    have hmv := hk.machine.mirrors hw.store hm trivial
    refine .node hk.sound hself hmv fun u hu hmu hmo => ?_
    split
    · apply (he value c u hu hv (hmu ▸ hmv)).bind
      intro b y hy _
      refine (Safe.lift hy.sound
        (.update _ (hy.sound.store.setField _ _ _) (.of_frames_eq rfl))).bind ?_
      exact fun _ z hz _ => .pure hz.sound trivial
    · exact .fault hu hmo _ (List.mem_singleton_self _)
  | this s =>
    refine .node hw hself hm fun u hu _ hmo => ?_
    exact (Safe.work hu hmo (.lookUp hu.store _ _ (List.mem_singleton_self _))).imp
      fun _ _ _ _ => trivial
  | super s x =>
    refine .node hw hself hm fun u hu _ hmo => ?_
    exact (Safe.work hu hmo (.superMethod hu.store s x)).imp fun _ _ _ _ => trivial

/-- An expression that stands in a statement leaves the names of the current frame as they are. -/
theorem SafeEval.inPlace {eval : Expr → Watched Value} (he : SafeEval V D eval) {e : Expr}
    {u : Walk} (hw : w.Sound V D) (hv : ∀ v ∈ e.visits u, V v)
    (hm : w.machine.store.Mirrors w.machine.frame u.scopes) :
    Safe V D (· ≠ w.machine.frame) (eval e) w fun _ v =>
      v.machine.frame = w.machine.frame ∧ v.machine.store.Mirrors v.machine.frame u.scopes := by
  have hn : ∀ n ∈ e.nodes, V ⟨.expr n, u.context⟩ := fun n hn => hv _ (List.mem_map_of_mem hn)
  apply (he e u.context w hw hn hm).mono (fun v hk => hk.weaken fun _ _ => trivial)
  intro a v hk _
  exact ⟨hk.machine.frame, hk.machine.mirrors hw.store hm trivial⟩

/-- A branch declares nothing, so it leaves the frames as they were. -/
theorem SafeExec.branch {exec : Stmt → Watched Flow} (hx : SafeExec V D exec)
    (hp : ∀ v, V v → v.sight.Proper) {s : Stmt} {u : Walk} {c : Context} {f : FrameId}
    {cs : List Scope} (hb : V ⟨.branch s, c⟩) (hv : ∀ v ∈ s.visits u, V v) (hu : u.scopes = cs)
    (hw : w.Sound V D) (hf : w.machine.frame = f)
    (hm : w.machine.store.Mirrors w.machine.frame cs) :
    Safe V D (· ≠ f) (exec s) w fun flow v =>
      flow = .normal → v.machine.store.Mirrors v.machine.frame cs := by
  subst hu hf
  have hnone : s.declares? = none := hp _ hb
  have h := hx s u w hw hv hm
  rwa [hnone, defined_none] at h

/-- A block runs in a frame of its own. -/
theorem SafeExec.block (hx : SafeExec V D (Stmt.watch fuel)) (hp : ∀ v, V v → v.sight.Proper)
    {u : Walk} {t : Span} {b : List Stmt} (hw : w.Sound V D)
    (hv : ∀ v ∈ Stmt.visitsAll u.openScope b, V v)
    (hm : w.machine.store.Mirrors w.machine.frame u.scopes) :
    Safe V D (fun _ => True) (Stmt.watch (fuel + 1) (.block t b)) w fun _ _ => True := by
  apply Safe.of_lt
  apply (Safe.ask hw _).bind
  intro frame v hk h
  obtain ⟨rfl, rfl⟩ := h
  have hadd : (v.machine.store.addFrame ⟨.empty, some v.machine.frame⟩).2.Sound V :=
    hw.store.addFrame _ (fun a ha => by cases ha) fun a ha => by cases ha
  apply (Safe.lift hw (.update _ hadd (.addFrame _ _))).bind
  intro g y hy h
  obtain ⟨rfl, h⟩ := h
  have hmy : y.machine.store.Mirrors v.machine.store.frames.size u.openScope.scopes := by
    rw [h]
    exact .addFrame hm.covers fun x => by simp
  have hin : Watch.Sound V D { y with machine.frame := v.machine.store.frames.size } :=
    ⟨hy.sound.store, hy.sound.distances, hy.sound.moments⟩
  have hrun : Safe V D (· < v.machine.store.frames.size) (Host.sequence (Stmt.watch fuel) b)
      { y with machine.frame := v.machine.store.frames.size } fun _ _ => True :=
    (Safe.sequence hx hp b hin hv hmy).weaken fun f hf => Nat.ne_of_lt hf
  exact hrun.inFrame

theorem SafeExec.succ (hV : ∀ v, V v → v.Faultless) (he : SafeEval V D (Expr.watch fuel))
    (hx : SafeExec V D (Stmt.watch fuel)) : SafeExec V D (Stmt.watch (fuel + 1)) := by
  have hp : ∀ v, V v → v.sight.Proper := fun v hv => (hV v hv).proper
  intro s u w hw hv hm
  cases s with
  | expr t e =>
    exact (he.inPlace hw hv hm).bind fun _ v hk hmv => .pure hk.sound fun _ => by
      simpa [Stmt.declares?] using hmv.2
  | print t e =>
    apply (he.inPlace hw (fun v h => hv v (List.mem_append_left _ h)) hm).bind
    intro a v hk hmv
    have hself : V ⟨.print t, u.context⟩ :=
      hv _ (List.mem_append_right _ (List.mem_singleton_self _))
    refine (Safe.note (e := .print t) hk.sound ⟨hk.sound.store, hk.sound.distances, _, hself⟩).bind
      fun _ y hy hmo => ?_
    have hprint : Run.Keeps V (· ≠ w.machine.frame) [t]
        (do Run.printLine (← Run.ask (·.store.text a)) t) y.machine fun _ n => n.store =
          y.machine.store := by
      apply (Run.Keeps.ask hy.sound.store _).bind
      intro x n _ h
      obtain ⟨-, rfl⟩ := h
      exact .printLine hy.sound.store x (List.mem_singleton_self _)
    refine (Safe.work hy.sound hmo.2 hprint).bind fun _ z hz hs => .pure hz.sound fun _ => ?_
    rw [hs, hz.machine.frame, hmo.1]
    simpa [Stmt.declares?] using hmv.2
  | var t x e =>
    cases e with
    | none =>
      have hplain : Plain x.name := hp _ (hv _ (List.mem_singleton_self _))
      refine (Safe.define hw hplain hm _).bind fun _ v hk hmv => .pure hk.sound fun _ => ?_
      rw [hmv.1]
      exact hmv.2
    | some e =>
      have hdecl : V ⟨.declaration x, u.context⟩ := hv _ List.mem_cons_self
      have hmd := hm.declare_walk (hV _ hdecl).errors_eq
      -- The frame has not got the name yet, and the scope holds it as not defined.
      refine ((he e _ w hw
        (fun n hn => hv _ (List.mem_cons_of_mem _ (List.mem_map_of_mem hn))) hmd).mono
        (fun v hk => hk.weaken fun _ _ => trivial)
        (R := fun _ v => v.machine.store.Mirrors w.machine.frame u.scopes) fun _ v hk _ => ?_).bind
        fun a v hk hmv => ?_
      · have h := hk.machine.mirrors hw.store hm trivial
        rwa [hk.machine.frame] at h
      · rw [← hk.machine.frame] at hmv ⊢
        refine (Safe.define hk.sound (hp _ hdecl) hmv a).bind fun _ y hy hmy =>
          .pure hy.sound fun _ => ?_
        rw [hmy.1]
        exact hmy.2
  | block t b =>
    apply (hx.block hp hw hv hm).mono (fun v hk => hk.weaken fun _ _ => trivial)
    intro _ v hk _ _
    simpa [Stmt.declares?] using hk.machine.mirrors hw.store hm trivial
  | ifElse t c yes no =>
    simp only [Stmt.declares?, defined_none]
    cases no with
    | none =>
      simp only [Stmt.visits, List.mem_append, List.mem_cons] at hv
      apply (he.inPlace hw (fun v h => hv v (.inl h)) hm).bind
      intro a v hk hmv
      split
      · exact hx.branch hp (hv _ (.inr (.inl rfl))) (fun v h => hv v (.inr (.inr h)))
          (c.scopes_resolve u)
          hk.sound hmv.1 hmv.2
      · exact .pure hk.sound fun _ => hmv.2
    | some no =>
      simp only [Stmt.visits, List.mem_append, List.mem_cons] at hv
      apply (he.inPlace hw (fun v h => hv v (.inl (.inl h))) hm).bind
      intro a v hk hmv
      have hyes : ∀ v ∈ yes.visits (c.resolve u), V v := fun v h => hv v (.inl (.inr (.inr h)))
      split
      · exact hx.branch hp (hv _ (.inl (.inr (.inl rfl)))) hyes
          (c.scopes_resolve u) hk.sound hmv.1 hmv.2
      · have hscopes : (yes.resolve (c.resolve u)).scopes = u.scopes :=
          Stmt.scopes_resolve_branch (hp _ (hv _ (.inl (.inr (.inl rfl))))) fun v h =>
            hp v (hyes v h)
        exact hx.branch hp (hv _ (.inr (.inl rfl))) (fun v h => hv v (.inr (.inr h))) hscopes
          hk.sound hmv.1 hmv.2
  | whileLoop t c b =>
    simp only [Stmt.visits, List.mem_append, List.mem_cons] at hv
    simp only [Stmt.declares?, defined_none]
    refine (Safe.loop ?_ ?_ fuel hw rfl hm).imp fun flow v hk h hflow => ?_
    · intro v hw' hf hm'
      refine (he c u.context v hw' (fun n h => hv _ (.inl (List.mem_map_of_mem h)))
        (hf ▸ hm')).bind ?_
      exact fun a y hy _ => .pure hy.sound trivial
    · intro v hw' hf hm'
      refine (hx.branch hp (hv _ (.inr (.inl rfl))) (fun v h => hv v (.inr (.inr h)))
        (c.scopes_resolve u) hw' hf
        (hf ▸ hm')).imp fun flow y hy h hflow => ?_
      rw [← hf, ← hy.machine.frame]
      exact h hflow
    · rw [hk.machine.frame]
      exact h hflow
  | function d =>
    refine (Safe.functionDecl hw hm (hp _ (hv _ List.mem_cons_self)) fun v h =>
      hv v (List.mem_cons_of_mem _ h)).bind fun _ v hk hmv => .pure hk.sound fun _ => hmv
  | classDecl t x p ms =>
    exact (Safe.classDecl hw hp hm hv).bind fun _ v hk hmv => .pure hk.sound fun _ => hmv
  | returning t k e =>
    cases e with
    | none =>
      exact .pure hw fun h => by cases h
    | some e =>
      have hscopes : (u.checkReturn k true).scopes = u.scopes :=
        congrArg Context.scopes (u.context_checkReturn k true)
      rw [← hscopes] at hm
      apply (he.inPlace hw (fun v h => hv v (List.mem_cons_of_mem _ h)) hm).bind
      intro a v hk _
      exact .pure hk.sound fun h => by cases h

/-- Whatever the fuel is, the watched evaluator is safe. -/
theorem safe_watch (hV : ∀ v, V v → v.Faultless) (fuel : Nat) :
    SafeEval V D (Expr.watch fuel) ∧ SafeExec V D (Stmt.watch fuel) := by
  induction fuel with
  | zero => exact ⟨fun _ _ _ hw _ _ => .cut hw, fun _ _ _ hw _ _ => .cut hw⟩
  | succ fuel ih => exact ⟨ih.1.succ hV ih.2, .succ hV ih.1 ih.2⟩

/-- A program that is run in the frame of the global variables is safe. -/
theorem safe_watchAll (hV : ∀ v, V v → v.Faultless) (fuel : Nat) {body : List Stmt}
    (hb : ∀ v ∈ Stmt.visitsAll .start body, V v) (hw : w.Sound V D)
    (hf : w.machine.frame = globals) :
    Safe V D (· ≠ globals) (watchAll fuel body) w fun _ _ => True := by
  have hm : w.machine.store.Mirrors w.machine.frame Walk.start.scopes := ⟨hf, trivial⟩
  have h := Safe.sequence (safe_watch hV fuel).2 (fun v hv => (hV v hv).proper) body hw hb hm
  rw [hf] at h
  exact h.bind fun _ v hk _ => .pure hk.sound trivial

end Lox
