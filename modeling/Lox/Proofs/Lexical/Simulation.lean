import Lox.Proofs.Lexical.Calls
import Lox.Proofs.Scoping.SelfAssignment
/-!
# Programs in lockstep

With the same fuel, the evaluator and the lexical interpreter run expressions and statements in
lockstep from any place where both stand, and so they run whole programs.
-/

namespace Lox

open Lexical

variable {V : Visit → Prop} {D : Distances} {κ : Naming} {w : Watch} {v : World} {p : Place}
  {fuel : Nat}

/-- Visits of accepted programs in which no variable is assigned in its own initial value. -/
structure Visit.Clean (D : Distances) (x : Visit) : Prop extends x.Sound D where
  settled : ¬ x.SelfAssigns

/-! ### Expressions -/

theorem LockEval.succ (hV : ∀ x, V x → x.Clean D)
    (ht : LockEval V D (Expr.watch fuel) (Expr.evalIn fuel))
    (hx : LockExec V D (Stmt.watch fuel) (Stmt.execIn fuel)) :
    LockEval V D (Expr.watch (fuel + 1)) (Expr.evalIn (fuel + 1)) := by
  have hF : ∀ x, V x → x.Faultless := fun x hx => (hV x hx).toFaultless
  have hs : SafeEval V D (Expr.watch fuel) := (safe_watch hF fuel).1
  intro e c κ w v p hn h
  have hself : V ⟨.expr e, c⟩ := hn e e.self_mem_nodes
  cases e with
  | literal s l =>
    rw [Expr.evalIn]
    exact .pure h.linked rfl
  | grouping s e =>
    rw [Expr.evalIn]
    exact ht e c κ w v p (fun n he => hn n (List.mem_append_left _ he)) h
  | unary s op t e =>
    rw [Expr.evalIn]
    apply ht.bind hs (fun n he => hn n (List.mem_append_left _ he)) h
    intro ν a w' v' _ _ h'
    exact .note (.ofExcept (h'.note hself).linked _ _)
  | binary s l op t r =>
    rw [Expr.evalIn]
    have hl : ∀ n ∈ l.nodes, V ⟨.expr n, c⟩ := fun n he =>
      hn n (List.mem_append_left _ (List.mem_append_left _ he))
    have hr : ∀ n ∈ r.nodes, V ⟨.expr n, c⟩ := fun n he =>
      hn n (List.mem_append_left _ (List.mem_append_right _ he))
    apply ht.bind hs hl h
    intro ν a w' v' _ _ h'
    apply ht.bind hs hr h'
    intro μ b w'' v'' _ _ h''
    exact .note (.ofExcept (h''.note hself).linked _ _)
  | logical s l op r =>
    rw [Expr.evalIn]
    have hl : ∀ n ∈ l.nodes, V ⟨.expr n, c⟩ := fun n he =>
      hn n (List.mem_append_left _ (List.mem_append_left _ he))
    have hr : ∀ n ∈ r.nodes, V ⟨.expr n, c⟩ := fun n he =>
      hn n (List.mem_append_left _ (List.mem_append_right _ he))
    apply ht.bind hs hl h
    intro ν a w' v' _ _ h'
    split
    · exact .pure h'.linked rfl
    · exact ht r c ν w' v' p hr h'
  | var s x =>
    rw [Expr.evalIn]
    have hread := (h.note hself).read ((hV _ hself).recorded s.id rfl) (hV _ hself).inScope x.span
    exact .note (hread.imp fun _ _ _ _ _ _ _ hq => hq.1)
  | assign s x e =>
    rw [Expr.evalIn]
    apply ht.bind hs (fun n he => hn n (List.mem_append_left _ he)) h
    intro ν a w' v' _ _ h'
    have hstatus : c.status? x.name ≠ some false := fun hx =>
      (hV _ hself).settled ((hV _ hself).inScope hx)
    refine .note
      (((h'.note hself).assign ((hV _ hself).recorded s.id rfl) hstatus a x.span).bind ?_)
    exact fun μ _ w'' _ v'' _ hl _ => .pure hl rfl
  | call s f t es =>
    rw [Expr.evalIn]
    have hf : ∀ n ∈ f.nodes, V ⟨.expr n, c⟩ := fun n he =>
      hn n (List.mem_append_left _ (List.mem_append_left _ he))
    have hes : ∀ n ∈ Expr.nodesAll es, V ⟨.expr n, c⟩ := fun n he =>
      hn n (List.mem_append_left _ (List.mem_append_right _ he))
    apply ht.bind hs hf h
    intro ν a w' v' _ _ h'
    apply (Lockstep.collect ht hs es hes h').bind
    intro μ as w'' bs v'' _ _ hq
    obtain ⟨rfl, h''⟩ := hq
    exact .note (.call hx hF (h''.note hself).sound (h''.note hself).linked a bs t)
  | get s e x =>
    rw [Expr.evalIn]
    apply ht.bind hs (fun n he => hn n (List.mem_append_left _ he)) h
    intro ν a w' v' _ _ h'
    exact .note (.property (h'.note hself).sound (h'.note hself).linked a x)
  | set s e x value =>
    rw [Expr.evalIn]
    have hv : ∀ n ∈ value.nodes, V ⟨.expr n, c⟩ := fun n he =>
      hn n (List.mem_append_left _ (List.mem_append_left _ he))
    have ho : ∀ n ∈ e.nodes, V ⟨.expr n, c⟩ := fun n he =>
      hn n (List.mem_append_left _ (List.mem_append_right _ he))
    refine ht.bind hs ho h fun ν a w' v' _ _ h' => .note ?_
    cases a with
    | object i =>
      apply ht.bind hs hv (h'.note hself)
      intro μ b w'' v'' _ _ h''
      have hl := h''.linked
      have hset :
          Machine.Linked V μ { w''.machine with store := w''.machine.store.setField i x.name b }
          (v''.setField i x.name b) :=
        hl.withStore (hl.store.setField i x.name b) rfl
      exact .step rfl rfl (.refl μ) (.pure hset rfl)
    | nil | bool | number | string | function | cls
    | native => exact .fault (h'.note hself).linked _ _
  | this s =>
    rw [Expr.evalIn]
    obtain ⟨hdist, hstatus⟩ := (hV _ hself).inScope
    have hread :=
      (h.note hself).read (((hV _ hself).recorded s.id rfl).trans hdist) (by simp [hstatus]) s.span
    exact .note (hread.imp fun _ _ _ _ _ _ _ hq => hq.1)
  | super s x =>
    rw [Expr.evalIn]
    exact .note (.superMethod (h.note hself) (hV _ hself).toSound)

/-! ### Statements -/

/-- What declares nothing, if it comes to its end, leaves both where they stood. -/
theorem Lockstep.stay {x : Watched Flow} {y : Process World Next} {K : FrameId → Prop}
    {cs : List Scope} {P : Place → Prop} (h : Stand V D κ w v cs p)
    (hs : Safe V D K x w fun flow v => flow = .normal →
      v.machine.store.Mirrors v.machine.frame (defined none cs))
    (hl : Lockstep V κ x y w v fun _ flow _ next _ => flow.Ends P next) :
    Lockstep V κ x y w v fun ν flow w' next v' => flow.Ends (fun q => P q ∧
      Stand V D ν w' v' cs p) next := by
  apply (Lockstep.and_safe hs hl).imp
  intro ν flow w' next v' hν hl hq
  obtain ⟨hk, hm, hends⟩ := hq
  rw [defined_none] at hm
  cases hends with
  | returned => exact .returned
  | onward hq => exact .onward ⟨hq, h.back hk (hm rfl) hν hl⟩

/-- A branch declares nothing. -/
theorem LockExec.branch {exec : Stmt → Watched Flow} {exec' : Place → Stmt → Process World Next}
    (ht : LockExec V D exec exec') (hp : ∀ x, V x → x.sight.Proper) {s : Stmt} {u : Walk}
    {c : Context} {cs : List Scope} (hb : V ⟨.branch s, c⟩) (hV : ∀ x ∈ s.visits u, V x)
    (hu : u.scopes = cs) (h : Stand V D κ w v cs p) :
    Lockstep V κ (exec s) (exec' p s) w v fun ν flow w' next v' =>
      flow.Ends (Stand V D ν w' v' (defined none cs)) next := by
  subst hu
  have hd : s.declares? = none := hp _ hb
  have hs := ht s u κ w v p hV h
  rwa [hd] at hs

/-- So the next turn of a loop starts where the last one did. -/
theorem LockExec.body {exec : Stmt → Watched Flow} {exec' : Place → Stmt → Process World Next}
    (ht : LockExec V D exec exec') (hs : SafeExec V D exec) (hp : ∀ x, V x → x.sight.Proper)
    {s : Stmt} {u : Walk} {c : Context} {cs : List Scope} (hb : V ⟨.branch s, c⟩)
    (hV : ∀ x ∈ s.visits u, V x) (hu : u.scopes = cs) (h : Stand V D κ w v cs p) :
    Lockstep V κ (exec s) (exec' p s) w v fun ν flow w' next v' =>
      flow.Ends (fun _ => Stand V D ν w' v' cs p) next := by
  have hl : Lockstep V κ (exec s) (exec' p s) w v fun _ flow _ next _ =>
      flow.Ends (fun _ => True) next :=
    (ht.branch hp hb hV hu h).imp fun _ _ _ _ _ _ _ hq => hq.imp fun _ _ => trivial
  subst hu
  have hd : s.declares? = none := hp _ hb
  have hsafe := hs s u w h.sound hV h.mirrors
  rw [hd] at hsafe
  exact (Lockstep.stay h hsafe hl).imp fun _ _ _ _ _ _ _ hq => hq.imp fun _ hq => hq.2

/-- A block runs in a scope of its own. -/
theorem LockExec.block (ht : LockExec V D (Stmt.watch fuel) (Stmt.execIn fuel))
    (hp : ∀ x, V x → x.sight.Proper) {u : Walk} {t : Span} {b : List Stmt}
    (hV : ∀ x ∈ Stmt.visitsAll u.openScope b, V x) (h : Stand V D κ w v u.scopes p) :
    Lockstep V κ (Stmt.watch (fuel + 1) (.block t b)) (Stmt.execIn (fuel + 1) p (.block t b)) w v
      fun _ flow _ next _ => flow.Ends (· = p) next := by
  let s := w.machine.store
  have hl := h.linked
  -- The frame is new, but the table is still that of the place around the block.
  have hin : Stand V D κ
      { w with machine.store := (s.addScope (some w.machine.frame)).2, machine.frame := s.frames.size } v
      u.openScope.scopes (.within p.locals) := by
    refine ⟨⟨?_, h.sound.distances, h.sound.moments⟩, ?_, ?_, h.sees.openScope, trivial⟩
    · exact h.sound.store.addFrame _ (fun a ha => nomatch ha) fun a ha => nomatch ha
    · exact .addFrame h.mirrors.covers fun x => by simp
    · exact hl.withStore (hl.store.addScope h.sound.store.size _) rfl
  rw [Stmt.execIn]
  refine .left rfl (.left rfl ?_)
  refine (Lockstep.inFrame (Lockstep.sequence ht hp b hV hin)).bind_right ?_
  intro ν flow w' next v' _ hl hends
  cases hends with
  | returned => exact .pure hl .returned
  | onward => exact .pure hl (.onward rfl)

theorem LockExec.succ (hV : ∀ x, V x → x.Clean D)
    (ht : LockEval V D (Expr.watch fuel) (Expr.evalIn fuel))
    (hx : LockExec V D (Stmt.watch fuel) (Stmt.execIn fuel)) :
    LockExec V D (Stmt.watch (fuel + 1)) (Stmt.execIn (fuel + 1)) := by
  have hF : ∀ x, V x → x.Faultless := fun x hx => (hV x hx).toFaultless
  have hp : ∀ x, V x → x.sight.Proper := fun x hx => (hV x hx).proper
  obtain ⟨hs, hxs⟩ := safe_watch (D := D) hF fuel
  intro s u κ w v p hv h
  cases s with
  | expr t e =>
    rw [Stmt.execIn]
    have he : ∀ n ∈ e.nodes, V ⟨.expr n, u.context⟩ := fun n hn => hv _ (List.mem_map_of_mem hn)
    exact ht.bind hs he h fun ν a w' v' _ _ h' => .pure h'.linked (.onward h'.of_none)
  | print t e =>
    rw [Stmt.execIn]
    have he : ∀ n ∈ e.nodes, V ⟨.expr n, u.context⟩ := fun n hn =>
      hv _ (List.mem_append_left _ (List.mem_map_of_mem hn))
    have hself : V ⟨.print t, u.context⟩ :=
      hv _ (List.mem_append_right _ (List.mem_singleton_self _))
    refine ht.bind hs he h fun ν a w' v' _ _ h' => .note (.right rfl ?_)
    have hnoted :
        Stand V D ν { w' with moments := ⟨.print t, w'.machine⟩ :: w'.moments } v' u.scopes p :=
      ⟨h'.sound.note ⟨h'.sound.store, h'.sound.distances, _, hself⟩, h'.mirrors, h'.linked,
        h'.sees, h'.place⟩
    exact (hnoted.print a t).bind fun μ _ w'' _ v'' _ hl h'' => .pure hl (.onward h''.of_none)
  | var t x e =>
    cases e with
    | none =>
      rw [Stmt.execIn]
      have hdecl := hV _ (hv _ (List.mem_singleton_self _))
      obtain ⟨ν, q, v', hd, hν, h'⟩ := h.declare hdecl.proper
        (fun d ds hu => Walk.find?_of_declaration hdecl.errors_eq hu) .nil
      exact .step rfl hd hν (.pure h'.linked (.onward h'))
    | some e =>
      rw [Stmt.execIn]
      have hdecl := hV _ (hv _ List.mem_cons_self)
      have he : ∀ n ∈ e.nodes, V ⟨.expr n, (u.declare x).context⟩ := fun n hn =>
        hv _ (List.mem_cons_of_mem _ (List.mem_map_of_mem hn))
      -- The name stands in the scope while its initial value is evaluated, but not in the frame.
      apply ht.bind hs he (h.declaring hdecl.errors_eq)
      intro ν a w' v' hν hk h'
      have hback : Stand V D ν w' v' u.scopes p := h.keeps hk trivial hν h'.linked
      obtain ⟨μ, q, v'', hd, hμ, h''⟩ := hback.declare hdecl.proper
        (fun d ds hu => Walk.find?_of_declaration hdecl.errors_eq hu) a
      exact .step rfl hd hμ (.pure h''.linked (.onward h''))
  | block t b =>
    have hsafe := (safe_watch (D := D) hF (fuel + 1)).2 (.block t b) u w h.sound hv h.mirrors
    apply (Lockstep.stay h hsafe (hx.block hp hv h)).imp
    intro ν flow w' next v' _ _ hends
    exact hends.imp fun q hq => hq.1 ▸ hq.2.of_none
  | ifElse t c yes no =>
    cases no with
    | none =>
      simp only [Stmt.visits, List.mem_append, List.mem_cons] at hv
      have hc : ∀ n ∈ c.nodes, V ⟨.expr n, u.context⟩ := fun n hn =>
        hv _ (.inl (List.mem_map_of_mem hn))
      rw [Stmt.execIn]
      apply ht.bind hs hc h
      intro ν a w' v' _ _ h'
      split
      · exact hx.branch hp (hv _ (.inr (.inl rfl))) (fun x hx => hv x (.inr (.inr hx)))
          (c.scopes_resolve u) h'
      · exact .pure h'.linked (.onward h'.of_none)
    | some no =>
      simp only [Stmt.visits, List.mem_append, List.mem_cons] at hv
      have hc : ∀ n ∈ c.nodes, V ⟨.expr n, u.context⟩ := fun n hn =>
        hv _ (.inl (.inl (List.mem_map_of_mem hn)))
      have hyes : ∀ x ∈ yes.visits (c.resolve u), V x := fun x hx => hv x (.inl (.inr (.inr hx)))
      rw [Stmt.execIn]
      apply ht.bind hs hc h
      intro ν a w' v' _ _ h'
      split
      · exact hx.branch hp (hv _ (.inl (.inr (.inl rfl)))) hyes (c.scopes_resolve u) h'
      · have hscopes : (yes.resolve (c.resolve u)).scopes = u.scopes :=
          Stmt.scopes_resolve_branch (hp _ (hv _ (.inl (.inr (.inl rfl))))) fun x hx =>
            hp x (hyes x hx)
        exact hx.branch hp (hv _ (.inr (.inl rfl))) (fun x hx => hv x (.inr (.inr hx))) hscopes h'
  | whileLoop t c b =>
    simp only [Stmt.visits, List.mem_append, List.mem_cons] at hv
    have hc : ∀ n ∈ c.nodes, V ⟨.expr n, u.context⟩ := fun n hn =>
      hv _ (.inl (List.mem_map_of_mem hn))
    rw [Stmt.execIn]
    refine (Lockstep.loop ?_ ?_ fuel h).imp fun _ _ _ _ _ _ _ hends => ?_
    · exact fun κ w v h => ht.bind hs hc h fun ν a w' v' _ _ h' => .pure h'.linked ⟨rfl, h'⟩
    · exact fun κ w v h =>
        hx.body hxs hp (hv _ (.inr (.inl rfl))) (fun x hx => hv x (.inr (.inr hx)))
          (c.scopes_resolve u) h
    · exact hends.imp fun _ h' => h'.of_none
  | function d =>
    rw [Stmt.execIn]
    have hdecl := hV _ (hv _ List.mem_cons_self)
    refine (h.functionDecl hdecl.proper
      (fun e es hu => Walk.find?_of_declaration hdecl.errors_eq hu)
      fun x hx => hv x (List.mem_cons_of_mem _ hx)).bind fun ν _ w' q v' _ hl hq =>
        .pure hl (.onward hq)
  | classDecl t x parent ms =>
    rw [Stmt.execIn]
    exact (h.classDecl hv fun x hx => (hV x hx).toSound).bind fun ν _ w' q v' _ hl hq =>
      .pure hl (.onward hq)
  | returning t k e =>
    cases e with
    | none =>
      rw [Stmt.execIn]
      exact .pure h.linked .returned
    | some e =>
      rw [Stmt.execIn]
      have he : ∀ n ∈ e.nodes, V ⟨.expr n, (u.checkReturn k true).context⟩ := fun n hn =>
        hv _ (List.mem_cons_of_mem _ (List.mem_map_of_mem hn))
      rw [u.context_checkReturn] at he
      exact ht.bind hs he h fun ν a w' v' _ _ h' => .pure h'.linked .returned

/-! ### Programs -/

/-- Whatever the fuel is, both run in lockstep. -/
theorem lock_watch (hV : ∀ x, V x → x.Clean D) (fuel : Nat) :
    LockEval V D (Expr.watch fuel) (Expr.evalIn fuel) ∧
    LockExec V D (Stmt.watch fuel) (Stmt.execIn fuel) := by
  induction fuel with
  | zero =>
    -- Both are cut off at once, in states that are still linked.
    exact ⟨fun _ _ _ _ _ _ _ h => .cut h.linked, fun _ _ _ _ _ _ _ h => .cut h.linked⟩
  | succ fuel ih => exact ⟨ih.1.succ hV ih.2, .succ hV ih.1 ih.2⟩

theorem lock_watchAll (hV : ∀ x, V x → x.Clean D) (fuel : Nat) {body : List Stmt}
    (hb : ∀ x ∈ Stmt.visitsAll .start body, V x) (h : Stand V D κ w v [] .top) :
    Lockstep V κ (watchAll fuel body) (Lexical.interpret fuel body) w v fun _ _ _ _ _ => True := by
  have hp : ∀ x, V x → x.sight.Proper := fun x hx => (hV x hx).proper
  exact (Lockstep.sequence (lock_watch hV fuel).2 hp body (u := .start) hb h).bind
    fun _ _ _ _ _ _ hl _ => .pure hl trivial

end Lox
