import Lox.Proofs.Lexical.Standing
import Lox.Proofs.Running.Contract
/-!
# Calls in lockstep

If expressions and statements run in lockstep with some fuel, so do lists of them, loops, and calls
of linked functions: the parameters of a call are new variables in both, and the body runs where the
frames mirror the scopes of the function and the table is that of its declaration.
-/

namespace Lox

open Lexical

variable {V : Visit → Prop} {D : Distances} {κ : Naming} {w : Watch} {v : World} {p : Place}

/-- Evaluating expressions keeps in lockstep. -/
def LockEval (V : Visit → Prop) (D : Distances) (eval : Expr → Watched Value)
    (eval' : Locals → Expr → Process World Value) : Prop :=
  ∀ (e : Expr) (c : Context) (κ : Naming) (w : Watch) (v : World) (p : Place),
    (∀ n ∈ e.nodes, V ⟨.expr n, c⟩) → Stand V D κ w v c.scopes p →
    Lockstep V κ (eval e) (eval' p.locals e) w v fun _ a _ b _ => b = a

/-- Whether a statement ends alike in both, at a place with `Q` if it does not return. -/
inductive Flow.Ends (Q : Place → Prop) : Flow → Next → Prop where
  | onward {q : Place} : Q q → Ends Q .normal (.onward q)
  | returned {a : Value} : Ends Q (.returned a) (.returned a)

/-- Executing statements keeps in lockstep, and takes both to the place after the statement. -/
def LockExec (V : Visit → Prop) (D : Distances) (exec : Stmt → Watched Flow)
    (exec' : Place → Stmt → Process World Next) : Prop :=
  ∀ (s : Stmt) (u : Walk) (κ : Naming) (w : Watch) (v : World) (p : Place),
    (∀ x ∈ s.visits u, V x) → Stand V D κ w v u.scopes p →
    Lockstep V κ (exec s) (exec' p s) w v fun ν flow w' next v' =>
      flow.Ends (Stand V D ν w' v' (defined s.declares? u.scopes)) next

theorem Flow.Ends.imp {P Q : Place → Prop} {flow : Flow} {next : Next} (h : flow.Ends P next)
    (hq : ∀ q, P q → Q q) : flow.Ends Q next := by
  cases h with
  | onward h => exact .onward (hq _ h)
  | returned => exact .returned

/-! ### Combinators -/

section Combinators

variable {eval : Expr → Watched Value} {eval' : Locals → Expr → Process World Value}
  {exec : Stmt → Watched Flow} {exec' : Place → Stmt → Process World Next} {α β : Type}

/-- An expression is evaluated where both stand, and they go on from there. -/
theorem LockEval.bind (ht : LockEval V D eval eval') (hs : SafeEval V D eval) {e : Expr}
    {c : Context} (hn : ∀ n ∈ e.nodes, V ⟨.expr n, c⟩) (h : Stand V D κ w v c.scopes p)
    {f : Value → Watched α} {g : Value → Process World β}
    {Q : Naming → α → Watch → β → World → Prop}
    (hf : ∀ ν a w' v', ν.Extends κ → w.Keeps V D (fun _ => True) w' → Stand V D ν w' v' c.scopes p →
      Lockstep V ν (f a) (g a) w' v' Q) :
    Lockstep V κ (eval e >>= f) (eval' p.locals e >>= g) w v Q := by
  refine (Lockstep.and_safe (hs e c w h.sound hn h.mirrors) (ht e c κ w v p hn h)).bind ?_
  intro ν a w' b v' hν hl hq
  obtain ⟨hk, -, rfl⟩ := hq
  exact hf ν b w' v' hν hk (h.keeps hk trivial hν hl)

theorem Lockstep.collect (ht : LockEval V D eval eval') (hs : SafeEval V D eval) (es : List Expr)
    {c : Context} (hn : ∀ n ∈ Expr.nodesAll es, V ⟨.expr n, c⟩) (h : Stand V D κ w v c.scopes p) :
    Lockstep V κ (Host.collect eval es) (Process.collect (eval' p.locals) es) w v
      fun ν a w' b v' => b = a ∧ Stand V D ν w' v' c.scopes p := by
  induction es generalizing κ w v with
  | nil => exact .pure h.linked ⟨rfl, h⟩
  | cons e es ih =>
    apply ht.bind hs (fun n he => hn n (List.mem_append_left _ he)) h
    intro ν a w' v' _ _ h'
    apply (ih (fun n he => hn n (List.mem_append_right _ he)) h').bind
    intro μ as w'' bs v'' _ hl hq
    exact .pure hl ⟨congrArg (a :: ·) hq.1, hq.2⟩

theorem Lockstep.sequence (ht : LockExec V D exec exec') (hp : ∀ x, V x → x.sight.Proper)
    (ss : List Stmt) {u : Walk} (hV : ∀ x ∈ Stmt.visitsAll u ss, V x)
    (h : Stand V D κ w v u.scopes p) :
    Lockstep V κ (Host.sequence exec ss) (Lexical.sequence exec' p ss) w v
      fun _ flow _ next _ => flow.Ends (fun _ => True) next := by
  induction ss generalizing κ w v p u with
  | nil => exact .pure h.linked (.onward trivial)
  | cons s ss ih =>
    have hs : ∀ x ∈ s.visits u, V x := fun x hx => hV x (List.mem_append_left _ hx)
    apply (ht s u κ w v p hs h).bind
    intro ν flow w' next v' _ hl hends
    cases hends with
    | returned => exact .pure hl .returned
    | @onward q hq =>
      have hstand : Stand V D ν w' v' (s.resolve u).scopes q := by
        rw [Stmt.scopes_resolve fun x hx => hp x (hs x hx)]
        exact hq
      exact ih (fun x hx => hV x (List.mem_append_right _ hx)) hstand

/-- A loop comes back to its place after every turn. -/
theorem Lockstep.loop {cs : List Scope} {test : Watched Bool} {test' : Process World Bool}
    {body : Watched Flow} {body' : Process World Next}
    (ht : ∀ κ w v, Stand V D κ w v cs p → Lockstep V κ test test' w v fun ν a w' b v' => b = a ∧
      Stand V D ν w' v' cs p)
    (hb : ∀ κ w v, Stand V D κ w v cs p →
      Lockstep V κ body body' w v fun ν flow w' next v' =>
        flow.Ends (fun _ => Stand V D ν w' v' cs p) next)
    (n : Nat) (h : Stand V D κ w v cs p) :
    Lockstep V κ (Host.loop test body n) (Lexical.loop p test' body' n) w v
      fun ν flow w' next v' => flow.Ends (Stand V D ν w' v' cs) next := by
  induction n generalizing κ w v with
  | zero => exact .cut h.linked
  | succ n ih =>
    apply (ht κ w v h).bind
    intro ν a w' b v' _ hl hq
    obtain ⟨rfl, h'⟩ := hq
    cases b with
    | false => exact .pure hl (.onward h')
    | true =>
      apply (hb ν w' v' h').bind
      intro μ flow w'' next v'' _ hl' hends
      cases hends with
      | returned => exact .pure hl' .returned
      | onward hq => exact ih hq

end Combinators

/-! ### Methods and properties -/

theorem Lockstep.bindValue (hw : w.Sound V D) (hl : w.machine.Linked V κ v) {m : Closure}
    {r : Function} (hm : m.MethodLinked V κ w.machine.store r) (i : InstanceId) :
    Lockstep V κ (Host.lift (Run.update (·.bindValue m i))) (Process.change (·.bindValue r i)) w v
      fun _ a _ b _ => b = a := by
  obtain ⟨ν, hν, heq, ht⟩ := hl.store.bindValue hw.store.size hm i
  exact .of_done rfl rfl hν (hl.withStore ht rfl) heq

theorem Lockstep.property (hw : w.Sound V D) (hl : w.machine.Linked V κ v) (a : Value) (x : Ident) :
    Lockstep V κ (Host.lift (Run.property a x)) (Lexical.property a x) w v fun _ a _ b _ => b =
      a := by
  cases a with
  | object i =>
    refine .lift_ask ?_
    obtain ⟨hs, hv⟩ | ⟨b, hs, hv⟩ | ⟨m, r, hs, hv, hm⟩ :=
      hl.store.property? i x.name <;> rw [hs, hv]
    · exact .of_fault rfl rfl hl.output
    · exact .of_done rfl rfl (.refl κ) hl rfl
    · exact .bindValue hw hl hm i
  | nil | bool | number | string | function | cls | native => exact .of_fault rfl rfl hl.output

/-- `super` finds the same method in both: the two variables that it needs are a
class and an instance. -/
theorem Lockstep.superMethod {c : Context} (h : Stand V D κ w v c.scopes p) {s : Site} {x : Ident}
    (hx : (⟨.expr (.super s x), c⟩ : Visit).Sound D) :
    Lockstep V κ (Host.lift (Run.superMethod s x)) (Lexical.superMethod p.locals s x) w v
      fun _ a _ b _ => b = a := by
  obtain ⟨hsuper, hthis, d, hd, hd'⟩ := hx.inScope
  have hid : w.machine.distances.get? s.id = some (d + 1) := by
    rw [h.sound.distances, hx.recorded s.id rfl]
    exact hd
  obtain ⟨a, ha, hva⟩ := h.getAt?_eq hd hsuper
  obtain ⟨b, hb, hvb⟩ := h.getAt?_eq hd' hthis
  obtain ⟨f, -, hf⟩ := Option.bind_eq_some_iff.mp ha
  obtain ⟨g, -, hg⟩ := Option.bind_eq_some_iff.mp hb
  obtain ⟨k, rfl⟩ := h.sound.store.parent f a hf
  obtain ⟨i, rfl⟩ := h.sound.store.receiver g b hg
  unfold Lockstep
  simp only [Watched.lift_eq, Run.superMethod_eq hid ha hb, Lexical.superMethod, Lexical.read,
    Bind.bind, Process.bind, Process.ask, Process.orFault, Pure.pure, Process.pure, hva, hvb]
  obtain ⟨hs, hv⟩ | ⟨m, r, hs, hv, hm⟩ := h.linked.store.method? k x.name <;> rw [hs, hv]
  · exact .fault h.linked.output
  · exact Lockstep.bindValue h.sound h.linked hm i

/-! ### Calls -/

section Calls

variable {exec : Stmt → Watched Flow} {exec' : Place → Stmt → Process World Next}

/-- Where the body of a function starts, both stand in the scope of its parameters. -/
theorem Stand.enter (hw : w.Sound V D) (hl : w.machine.Linked V κ v) (hV : ∀ x, V x → x.Faultless)
    {c : Closure} {r : Function} (hc : c.Linked V κ w.machine.store r) {vs : List Value}
    (hn : vs.length = c.decl.parameters.length) :
    ∃ ν l v' u, Lexical.bindParameters r.locals (r.decl.parameters.zip vs) v =
      .done l v' ∧ ν.Extends κ ∧
      (∀ x ∈ Stmt.visitsAll u c.decl.body, V x) ∧
      Stand V D ν
        { w with
          machine.store :=
            (w.machine.store.addFrame ⟨Run.bindParameters c.decl.parameters vs, some c.scope⟩).2
          machine.frame := w.machine.store.frames.size }
        v' u.scopes (.within l) := by
  obtain ⟨u, kind, cs, hu, hcov, hsees, hvisits⟩ := hc.visited
  obtain rfl : u.scopes = cs := hu
  have hp : ∀ x, V x → x.sight.Proper := fun x hx => (hV x hx).proper
  obtain ⟨hadd, hm, hbody⟩ := hw.store.enter hp hcov hvisits hn
  let inner := { u with function := kind }.openScope
  let s := w.machine.store
  have hsub : ∀ d : FunctionDecl, ∀ x ∈ inner.parameterVisits d.parameters, x ∈ d.visits u kind :=
    fun ⟨_, _, _, _⟩ _ hx => List.mem_append_left _ hx
  have herrors : ∀ x ∈ inner.parameterVisits c.decl.parameters, x.errors = [] := fun x hx =>
    (hV x (hvisits x (hsub _ x hx))).errors_eq
  have hempty : (s.addScope (some c.scope)).2.Mirrors s.frames.size inner.scopes :=
    .addFrame hcov fun x => by simp
  have hs : globals < (s.addScope (some c.scope)).2.frames.size :=
    Nat.lt_of_lt_of_le hw.store.size (Store.Grows.addFrame (K := fun _ => True) s _).size
  obtain ⟨ν, l, cells, hbind, hν, ht, hl'⟩ := Store.Linked.bindParameters hn rfl herrors
    (hl.store.addScope hw.store.size (some c.scope)) hs (Nat.ne_of_gt hw.store.size) hempty
      hsees.openScope
  rw [← Store.addFrame_bindParameters] at ht hl'
  rw [hc.decl]
  refine ⟨ν, l, _, u.enterFunction kind c.decl.parameters, hbind, hν, hbody, ?_⟩
  have hscopes : (u.enterFunction kind c.decl.parameters).scopes =
      parameterScope c.decl.parameters :: u.scopes :=
    Walk.scopes_declareAll rfl _
  exact {
    sound := ⟨hadd, hw.distances, hw.moments⟩
    mirrors := hm
    linked := hl.withStore ht rfl
    sees := hl'
    place := by
      rw [hscopes]
      trivial }

theorem Lockstep.invoke (ht : LockExec V D exec exec') (hV : ∀ x, V x → x.Faultless)
    (hw : w.Sound V D) (hl : w.machine.Linked V κ v) {c : Closure} {r : Function}
    (hc : c.Linked V κ w.machine.store r) {vs : List Value}
    (hn : vs.length = c.decl.parameters.length) :
    Lockstep V κ (Host.invoke exec c vs) (Lexical.invoke exec' r vs) w v fun _ a _ b _ => b =
      a := by
  obtain ⟨ν, l, v', u, hbind, hν, hbody, h⟩ := Stand.enter hw hl hV hc hn
  refine .step rfl hbind hν ?_
  rw [hc.decl, hc.isInitializer]
  have hrun := Lockstep.sequence ht (fun x hx => (hV x hx).proper) c.decl.body hbody h
  apply (Lockstep.inFrame hrun).bind
  intro μ flow w' next v' hμ hl' hends
  split
  · rename_i hi
    obtain ⟨e, he, hr⟩ := hc.receiver hi
    have hcell := hl'.store.cells _ _ _ (hμ _ _ _ (hν _ _ _ he))
    have hthis : v'.valueOf? r.locals "this" = w'.machine.store.getAt? c.scope 0 "this" := by
      rw [World.valueOf?, hr, Store.getAt?_zero]
      exact hcell.2.symm
    have hread :=
      Lockstep.orFault (w := { w' with moments := ⟨.answer c, w'.machine⟩ :: w'.moments }) hl'
      (w'.machine.store.getAt? c.scope 0 "this") (.undefinedVariable "this") c.decl.name.span
    refine .note (.lift_ask ?_)
    rw [hthis]
    exact hread.imp fun _ _ _ _ _ _ _ hq => hq.1
  · cases hends with
    | returned => exact .pure hl' rfl
    | onward => exact .pure hl' rfl

theorem Lockstep.instantiate (ht : LockExec V D exec exec') (hV : ∀ x, V x → x.Faultless)
    (hw : w.Sound V D) (hl : w.machine.Linked V κ v) {c : ClassId} {vs : List Value}
    (hn : vs.length = w.machine.store.classArity c) :
    Lockstep V κ (Host.instantiate exec c vs) (Lexical.instantiate exec' c vs) w v
      fun _ a _ b _ => b = a := by
  let s := (w.machine.store.addInstance ⟨c, .empty⟩).2
  obtain ⟨hi, hs⟩ := hl.store.addInstance ⟨c, .empty⟩
  have hw' : Watch.Sound V D { w with machine.store := s } :=
    ⟨hw.store.addInstance _, hw.distances, hw.moments⟩
  have hmethod : s.method? c initializerName = w.machine.store.method? c initializerName :=
    Store.method?_congr (s := w.machine.store) (t := s) rfl c _
  have hl' : Machine.Linked V κ { w.machine with store := s } (v.addInstance ⟨c, .empty⟩).2 :=
    hl.withStore hs rfl
  refine .step rfl rfl (.refl κ) ?_
  rw [hi]
  obtain ⟨hsm, hv⟩ | ⟨m, r, hsm, hv, hm⟩ := hs.method? c initializerName
  · exact .ask hsm hv (.pure hl' rfl)
  · refine .ask hsm hv ?_
    have hlen : vs.length = m.decl.parameters.length := by
      rw [hn, Store.classArity, ← hmethod, hsm]
    let i := (w.machine.store.addInstance ⟨c, .empty⟩).1
    obtain ⟨hsb, -⟩ := hw'.store.bind hm.toVisited i
    obtain ⟨ν, hν, ht', hlinked⟩ := hs.bind hw'.store.size hm i
    have hwb : Watch.Sound V D { w with machine.store := (s.bind m i).2 } :=
      ⟨hsb, hw.distances, hw.moments⟩
    have hlb : Machine.Linked V ν { w.machine with store := (s.bind m i).2 }
        ((v.addInstance ⟨c, .empty⟩).2.bind r i).2 :=
      hl.withStore ht' rfl
    refine .step rfl rfl hν ((Lockstep.invoke ht hV hwb hlb hlinked hlen).bind ?_)
    exact fun μ _ w' _ v' _ hend _ => .pure hend rfl

theorem Lockstep.readClock (hl : w.machine.Linked V κ v) :
    Lockstep V κ Host.readClock Lexical.readClock w v fun _ a _ b _ => b = a := by
  have hread : Value.number (v.clock v.readings) =
      .number (w.machine.clock w.machine.readings) := by
    rw [hl.clock, hl.readings]
  refine .of_done rfl rfl (.refl κ) ?_ hread
  exact ⟨hl.store.withRest _ _ _, hl.depth, hl.maxDepth, hl.output, hl.clock,
    congrArg (· + 1) hl.readings⟩

theorem Lockstep.enter (ht : LockExec V D exec exec') (hV : ∀ x, V x → x.Faultless)
    (hw : w.Sound V D) (hl : w.machine.Linked V κ v) {callee : Value} {vs : List Value}
    (hn : w.machine.store.arity? callee = some vs.length) :
    Lockstep V κ (Host.enter exec callee vs) (Lexical.enter exec' callee vs) w v
      fun _ a _ b _ => b = a := by
  cases callee with
  | function f =>
    obtain ⟨hs, hv⟩ | ⟨c, r, hs, hv, hc⟩ := hl.store.functions.items f
    · exact .ask hs hv (.pure hl rfl)
    · have hlen : vs.length = c.decl.parameters.length := by
        simpa [Store.arity?, hs] using hn.symm
      exact .ask hs hv (.invoke ht hV hw hl hc hlen)
  | cls c => exact .instantiate ht hV hw hl (Option.some.inj hn).symm
  | nil | bool | number | string | native | object => exact .readClock hl

theorem Lockstep.call (ht : LockExec V D exec exec') (hV : ∀ x, V x → x.Faultless)
    (hw : w.Sound V D) (hl : w.machine.Linked V κ v) (callee : Value) (vs : List Value)
    (paren : Span) :
    Lockstep V κ (Host.call exec callee vs paren) (Lexical.call exec' callee vs paren) w v
      fun _ a _ b _ => b = a := by
  refine .ask rfl (hl.store.arity? callee) ?_
  cases hn : w.machine.store.arity? callee with
  | none => exact .fault hl _ _
  | some n =>
    dsimp only
    split
    · exact .fault hl _ _
    · rename_i hlen
      have hdeep : decide (v.maxDepth ≤ v.depth) =
          decide (w.machine.maxDepth ≤ w.machine.depth) := by
        rw [hl.maxDepth, hl.depth]
      refine .ask rfl hdeep ?_
      split
      · exact .fault hl _ _
      · have hw' : Watch.Sound V D { w with machine.depth := w.machine.depth + 1 } :=
          ⟨hw.store, hw.distances, hw.moments⟩
        have hl' : Machine.Linked V κ { w.machine with depth := w.machine.depth + 1 }
            { v with depth := v.depth + 1 } :=
          ⟨hl.store.withRest _ _ _, congrArg (· + 1) hl.depth, hl.maxDepth, hl.output,
            hl.clock, hl.readings⟩
        refine .nested (.enter ht hV hw' hl' ?_)
        rw [Decidable.not_not.mp hlen]
        exact hn

end Calls

end Lox
