import Lox.Proofs.Loops.Setting
/-!
# Resolving code and its copy

The walk that resolves names is the same in code and in its copy but for one open scope that holds
nothing. So the distances that it finds belong together.
-/

namespace Lox

/-! ### A scope more -/

/-- The open scopes with the extra scope among them. -/
def Setting.widen : Setting → List Scope → List Scope
  | outside, ss => ss
  | inside k, ss => ss.insertIdx k .empty

/-- The nearest scopes that hold a name lie at distances that belong together. -/
theorem Setting.links_widen (p : Setting) (ss : List Scope) (x : String) :
    Option.Rel p.Links ((p.widen ss).findIdx? (·.contains x)) (ss.findIdx? (·.contains x)) := by
  cases p with
  | outside =>
    rw [widen]
    cases ss.findIdx? (·.contains x) with
    | none => exact .none
    | some d => exact .some (.outside d)
  | inside k =>
    rw [widen]
    induction k generalizing ss with
    | zero =>
      rw [List.insertIdx_zero, List.findIdx?_cons]
      cases ss.findIdx? (·.contains x) with
      | none => exact .none
      | some d => exact .some (.past d)
    | succ k ih =>
      cases ss with
      | nil => exact .none
      | cons s ss =>
        rw [List.insertIdx_succ_cons, List.findIdx?_cons, List.findIdx?_cons]
        split
        · exact .some (.here k)
        · have hss := ih ss
          cases hd : (ss.insertIdx k .empty).findIdx? (·.contains x) <;>
            cases hd' : ss.findIdx? (·.contains x) <;> rw [hd, hd'] at hss
          · exact .none
          · cases hss
          · cases hss
          · cases hss with
            | some hss => exact .some (.step hss)

@[simp] theorem Setting.widen_deeper (p : Setting) (s : Scope) (ss : List Scope) :
    p.deeper.widen (s :: ss) = s :: p.widen ss := by
  cases p <;> rfl

/-- What is put into the innermost scope is put there with the extra scope as well, unless this is
the innermost one. -/
theorem Setting.widen_defined {p : Setting} (hp : p ≠ inside 0) (x : Option String)
    (ss : List Scope) : p.widen (defined x ss) = defined x (p.widen ss) := by
  cases x with
  | none => rw [defined_none, defined_none]
  | some x =>
    cases p with
    | outside => rfl
    | inside k =>
      cases k with
      | zero => exact absurd rfl hp
      | succ k => cases ss <;> rfl

namespace Context

/-- The context with the extra scope. -/
def widen (c : Context) (p : Setting) : Context := { c with scopes := p.widen c.scopes }

theorem links_nearest? (c : Context) (p : Setting) (x : String) :
    Option.Rel p.Links ((c.widen p).nearest? x) (c.nearest? x) := p.links_widen c.scopes x

theorem widen_openScope (c : Context) (p : Setting) :
    (c.widen p).openScope = c.openScope.widen p.deeper := by
  rw [openScope, openScope, widen, widen, Setting.widen_deeper]

theorem widen_define (c : Context) {p : Setting} (hp : p ≠ .inside 0) (x : Option String) :
    (c.define x).widen p = (c.widen p).define x := by
  rw [define, define, widen, widen, Setting.widen_defined hp]

theorem widen_defineAll (c : Context) {p : Setting} {xs : List String}
    (hp : p = .inside 0 → xs = []) : (c.defineAll xs).widen p = (c.widen p).defineAll xs := by
  induction xs generalizing c with
  | nil => rfl
  | cons x xs ih =>
    have hp0 : p ≠ .inside 0 := fun h => by cases hp h
    exact (ih (c.define (some x)) fun h => absurd h hp0).trans (by rw [widen_define c hp0]; rfl)

/-- The context after a name is declared in the innermost scope. -/
def declare (c : Context) (x : String) : Context :=
  match c.scopes with
  | [] => c
  | s :: ss => if s.contains x then c else { c with scopes := s.insert x false :: ss }

private theorem widen_declare (c : Context) {p : Setting} (hp : p ≠ .inside 0) (x : String) :
    (c.declare x).widen p = (c.widen p).declare x := by
  obtain ⟨ss, k, l⟩ := c
  cases p with
  | outside => rfl
  | inside k =>
    cases k with
    | zero => exact absurd rfl hp
    | succ k =>
      cases ss with
      | nil => rfl
      | cons s ss =>
        simp only [declare, widen, Setting.widen, List.insertIdx_succ_cons]
        split <;> rfl

private theorem widen_inClass_none (c : Context) {p : Setting} (hp : p ≠ .inside 0) (x : String) :
    (c.inClass x none).widen p.deeper = (c.widen p).inClass x none := by
  rw [inClass_none, inClass_none, widen, widen, Setting.widen_deeper, Setting.widen_defined hp]

private theorem widen_inClass_some (c : Context) {p : Setting} (hp : p ≠ .inside 0) (x : String)
    (s s' : Superclass) :
    (c.inClass x (some s')).widen p.deeper.deeper = (c.widen p).inClass x (some s) := by
  rw [inClass_some, inClass_some, widen, widen, Setting.widen_deeper, Setting.widen_deeper,
    Setting.widen_defined hp]

end Context

namespace Walk

theorem context_declare (w : Walk) (x : Ident) :
    (w.declare x).context = w.context.declare x.name := by
  unfold declare Context.declare
  split
  · rename_i h
    simp [context, h]
  · rename_i s ss h
    by_cases hx : s.contains x.name = true
    · simp [context, report, h, hx]
    · simp [context, h, hx]

theorem context_declareAll_eq (w : Walk) (xs : List Ident) :
    (w.declareAll xs).context = w.context.defineAll (xs.map Ident.name) := by
  induction xs generalizing w with
  | nil => rfl
  | cons x xs ih =>
    refine (ih ((w.declare x).define x.name)).trans ?_
    rw [context_declare_define]
    rfl

end Walk

/-! ### Expressions -/

/-- Two programs that differ in nothing but the numbers of their expressions. -/
def Likeness.renumbered : Likeness := .agreeing Eq fun _ _ => True

namespace Likeness

theorem ident_eq {x x' : Lox.Ident} (h : renumbered.Ident x x') : x = x' := by
  obtain ⟨y, t⟩ := x
  obtain ⟨y', t'⟩ := x'
  obtain ⟨hy, ht⟩ := h
  cases hy
  cases ht
  rfl

end Likeness

open Likeness

/-- What is recorded for a visit is what is found in it. -/
def Visit.Recorded (D : Distances) (v : Visit) : Prop :=
  ∀ i, v.id? = some i → D.get? i = v.distance?

variable {D : Distances} {p : Setting} {c c' : Context}

theorem Site.lifted_of_nearest {s s' : Site} (hc : c = c'.widen p) (hs : renumbered.Site s s')
    (x : String) (h : D.get? s.id = c.nearest? x) (h' : D.get? s'.id = c'.nearest? x) :
    s.Lifted D p s' where
  span := hs.span.symm
  links := by
    rw [h, h', hc]
    exact c'.links_nearest? p x

private theorem Site.lifted_of_this {s s' : Site} (hc : c = c'.widen p) (hs : renumbered.Site s s')
    (h : D.get? s.id = if c.classKind = .none then none else c.nearest? "this")
    (h' : D.get? s'.id = if c'.classKind = .none then none else c'.nearest? "this") :
    s.Lifted D p s' := by
  have hk : c.classKind = c'.classKind := by rw [hc, Context.widen]
  by_cases hn : c'.classKind = .none
  · rw [if_pos (hk.trans hn)] at h
    rw [if_pos hn] at h'
    refine ⟨hs.span.symm, ?_⟩
    rw [h, h']
    exact .none
  · rw [if_neg (hk ▸ hn)] at h
    rw [if_neg hn] at h'
    exact Site.lifted_of_nearest hc hs "this" h h'

/-- `super` is found just outside of `this`, so the distances of both belong together. -/
theorem Site.liftedParent_of_nearest {s s' : Site} (hc : c = c'.widen p) (hs : renumbered.Site s s')
    {d : Nat} (hsuper : c.nearest? "super" = some (d + 1)) (hthis : c.nearest? "this" = some d)
    (h : D.get? s.id = c.nearest? "super") (h' : D.get? s'.id = c'.nearest? "super") :
    s.LiftedParent D p s' where
  span := hs.span.symm
  links := by
    have ht := c'.links_nearest? p "this"
    have hp := c'.links_nearest? p "super"
    rw [← hc] at ht hp
    rw [h, h']
    rw [hthis] at ht
    rw [hsuper] at hp ⊢
    cases hd' : c'.nearest? "this" with
    | none =>
      rw [hd'] at ht
      cases ht
    | some d' =>
      rw [hd'] at ht
      cases he : c'.nearest? "super" with
      | none =>
        rw [he] at hp
        cases hp
      | some e =>
        rw [he] at hp
        cases ht with
        | some ht =>
          cases hp with
          | some hp =>
            obtain rfl := ht.succ hp
            exact .outer ht hp

mutual

theorem Expr.lifted_of_like (hc : c = c'.widen p) : (e e' : Expr) → e.Like renumbered e' →
    (∀ n ∈ e.nodes, (⟨.expr n, c⟩ : Visit).Sound D) →
    (∀ n ∈ e'.nodes, (⟨.expr n, c'⟩ : Visit).Recorded D) →
    e.Lifted D p e'
  | .literal _ _, _, .literal _, _, _ => .literal
  | .grouping _ e, _, .grouping _ he, h, h' =>
    .grouping (e.lifted_of_like hc _ he (fun n hn => h n (by simp [Expr.nodes, hn]))
      fun n hn => h' n (by simp [Expr.nodes, hn]))
  | .unary _ _ _ e, _, .unary _ ht he, h, h' => by
    cases ht
    exact .unary (e.lifted_of_like hc _ he (fun n hn => h n (by simp [Expr.nodes, hn]))
      fun n hn => h' n (by simp [Expr.nodes, hn]))
  | .binary _ l _ _ r, _, .binary _ hl ht hr, h, h' => by
    cases ht
    exact .binary
      (l.lifted_of_like hc _ hl (fun n hn => h n (by simp [Expr.nodes, hn]))
        fun n hn => h' n (by simp [Expr.nodes, hn]))
      (r.lifted_of_like hc _ hr (fun n hn => h n (by simp [Expr.nodes, hn]))
        fun n hn => h' n (by simp [Expr.nodes, hn]))
  | .logical _ l _ r, _, .logical _ hl hr, h, h' =>
    .logical
      (l.lifted_of_like hc _ hl (fun n hn => h n (by simp [Expr.nodes, hn]))
        fun n hn => h' n (by simp [Expr.nodes, hn]))
      (r.lifted_of_like hc _ hr (fun n hn => h n (by simp [Expr.nodes, hn]))
        fun n hn => h' n (by simp [Expr.nodes, hn]))
  | .var s x, _, .var hs hx, h, h' => by
    obtain rfl := ident_eq hx
    exact .var
      (Site.lifted_of_nearest hc hs x.name ((h _ (Expr.self_mem_nodes _)).recorded s.id rfl)
        (h' _ (Expr.self_mem_nodes _) _ rfl))
  | .assign s x e, _, .assign hs hx he, h, h' => by
    obtain rfl := ident_eq hx
    exact .assign
      (Site.lifted_of_nearest hc hs x.name ((h _ (Expr.self_mem_nodes _)).recorded s.id rfl)
        (h' _ (Expr.self_mem_nodes _) _ rfl))
      (e.lifted_of_like hc _ he (fun n hn => h n (by simp [Expr.nodes, hn]))
        fun n hn => h' n (by simp [Expr.nodes, hn]))
  | .call _ f _ es, _, .call _ hf ht hes, h, h' => by
    cases ht
    exact .call
      (f.lifted_of_like hc _ hf (fun n hn => h n (by simp [Expr.nodes, hn]))
        fun n hn => h' n (by simp [Expr.nodes, hn]))
      (Expr.forall₂_lifted_of_like hc es _ hes (fun n hn => h n (by simp [Expr.nodes, hn]))
        fun n hn => h' n (by simp [Expr.nodes, hn]))
  | .get _ e _, _, .get _ he hx, h, h' => by
    obtain rfl := ident_eq hx
    exact .get (e.lifted_of_like hc _ he (fun n hn => h n (by simp [Expr.nodes, hn]))
      fun n hn => h' n (by simp [Expr.nodes, hn]))
  | .set _ e _ v, _, .set _ he hx hv, h, h' => by
    obtain rfl := ident_eq hx
    exact .set
      (e.lifted_of_like hc _ he (fun n hn => h n (by simp [Expr.nodes, hn]))
        fun n hn => h' n (by simp [Expr.nodes, hn]))
      (v.lifted_of_like hc _ hv (fun n hn => h n (by simp [Expr.nodes, hn]))
        fun n hn => h' n (by simp [Expr.nodes, hn]))
  | .this s, _, .this hs, h, h' =>
    .this (Site.lifted_of_this hc hs ((h _ (Expr.self_mem_nodes _)).recorded s.id rfl)
      (h' _ (Expr.self_mem_nodes _) _ rfl))
  | .super s x, _, .super hs hx, h, h' => by
    obtain rfl := ident_eq hx
    have hsound := h (.super s x) (Expr.self_mem_nodes _)
    obtain ⟨-, -, d, hsuper, hthis⟩ := hsound.inScope
    exact .super (Site.liftedParent_of_nearest hc hs hsuper hthis (hsound.recorded s.id rfl)
      (h' _ (Expr.self_mem_nodes _) _ rfl))

theorem Expr.forall₂_lifted_of_like (hc : c = c'.widen p) : (es es' : List Expr) →
    List.Forall₂ (Expr.Like renumbered) es es' →
    (∀ n ∈ Expr.nodesAll es, (⟨.expr n, c⟩ : Visit).Sound D) →
    (∀ n ∈ Expr.nodesAll es', (⟨.expr n, c'⟩ : Visit).Recorded D) →
    List.Forall₂ (Expr.Lifted D p) es es'
  | [], _, .nil, _, _ => .nil
  | e :: es, _, .cons he hes, h, h' =>
    .cons
      (e.lifted_of_like hc _ he (fun n hn => h n (by simp [Expr.nodesAll, hn]))
        fun n hn => h' n (by simp [Expr.nodesAll, hn]))
      (Expr.forall₂_lifted_of_like hc es _ hes (fun n hn => h n (by simp [Expr.nodesAll, hn]))
        fun n hn => h' n (by simp [Expr.nodesAll, hn]))

end

/-! ### Statements -/

variable {w w' : Walk}

theorem Expr.lifted_visits (hw : w.context = w'.context.widen p) {e e' : Expr}
    (h : e.Like renumbered e') (hv : ∀ v ∈ e.visits w, v.Sound D)
    (hv' : ∀ v ∈ e'.visits w', v.Recorded D) : e.Lifted D p e' :=
  e.lifted_of_like hw e' h (fun _ hn => hv _ (List.mem_map_of_mem hn)) fun _ hn =>
    hv' _ (List.mem_map_of_mem hn)

namespace Walk

private theorem widen_withFunction (hw : w.context = w'.context.widen p) (k : FunctionKind) :
    { w with function := k }.context = { w' with function := k }.context.widen p := by
  rw [context, context, Context.widen, Context.mk.injEq] at hw
  rw [context, context, Context.widen, hw.1, hw.2.2]

private theorem widen_enterClass (hw : w.context = w'.context.widen p) (hp : p ≠ .inside 0)
    (x : Ident) :
    (w.enterClass x none).context = (w'.enterClass x none).context.widen p.deeper := by
  rw [w.context_enterClass, w'.context_enterClass, Context.widen_inClass_none _ hp, hw]

private theorem widen_enterSubclass (hw : w.context = w'.context.widen p) (hp : p ≠ .inside 0)
    (x : Ident) (s s' : Superclass) :
    (w.enterClass x (some s)).context =
      (w'.enterClass x (some s')).context.widen p.deeper.deeper := by
  rw [w.context_enterClass, w'.context_enterClass, Context.widen_inClass_some _ hp _ s, hw]

/-- The context in which the superclass of the class `x` is visited. -/
theorem context_superclass (w : Walk) (x : Ident) :
    { ({ w with classKind := .plain }.declare x).define x.name with classKind :=
      .subclass }.context =
      { w.context.define (some x.name) with classKind := .subclass } :=
  congrArg (fun c => { c with classKind := .subclass })
    (context_declare_define { w with classKind := .plain } x)

end Walk

theorem Superclass.lifted_of_like (hw : w.context = w'.context.widen p) (hp : p ≠ .inside 0)
    {x : Ident} {s s' : Superclass} (hs : renumbered.Superclass s s')
    (h : ∀ v ∈ w.classVisits x (some s), v.Sound D)
    (h' : ∀ v ∈ w'.classVisits x (some s'), v.Recorded D) : s.Lifted D p s' := by
  have hname := ident_eq hs.name
  have hd :=
    (h _ (List.mem_cons_of_mem _
      (List.mem_cons_of_mem _ List.mem_cons_self))).recorded s.site.id rfl
  have hd' :=
    h' _ (List.mem_cons_of_mem _ (List.mem_cons_of_mem _ List.mem_cons_self)) s'.site.id rfl
  rw [w.context_superclass] at hd
  rw [w'.context_superclass] at hd'
  have hc : ({ w.context.define (some x.name) with classKind := .subclass } : Context) =
      ({ w'.context.define (some x.name) with classKind := .subclass } : Context).widen p := by
    rw [hw, ← Context.widen_define _ hp]
    rfl
  refine ⟨Site.lifted_of_nearest hc hs.site s.name.name hd ?_, hname.symm⟩
  rw [hname]
  exact hd'

theorem FunctionDecl.widen_resolve (hw : w.context = w'.context.widen p) (d d' : FunctionDecl)
    (kind : FunctionKind) : (d.resolve w kind).context = (d'.resolve w' kind).context.widen p := by
  rw [d.context_resolve, d'.context_resolve, hw]

theorem Expr.widen_resolve (hw : w.context = w'.context.widen p) (e e' : Expr) :
    (e.resolve w).context = (e'.resolve w').context.widen p := by
  rw [e.context_resolve, e'.context_resolve, hw]

theorem Stmt.declaredNames_of_like :
    (s s' : Stmt) → s.Like renumbered s' → s'.declaredNames = s.declaredNames
  | .expr _ _, _, .expr _ _ | .print _ _, _, .print _ _ | .block _ _, _, .block _ _
  | .returning _ _ _, _, .returning _ _ _ => rfl
  | .var _ _ _, _, .var _ hx _ => congrArg ([·]) hx.name
  | .function _, _, .function hd => congrArg ([·]) hd.name.name
  | .classDecl _ _ _ _, _, .classDecl _ hx _ _ => congrArg ([·]) hx.name
  | .ifElse _ _ s none, _, .ifElse _ _ hs .none => by
    rw [declaredNames, declaredNames, s.declaredNames_of_like _ hs]
  | .ifElse _ _ s (some n), _, .ifElse _ _ hs (.some hn) => by
    rw [declaredNames, declaredNames, s.declaredNames_of_like _ hs, n.declaredNames_of_like _ hn]
  | .whileLoop _ _ s, _, .whileLoop _ _ hs => by
    rw [declaredNames, declaredNames, s.declaredNames_of_like _ hs]

/-- Behind a statement and its copy the contexts still differ in the extra scope only. -/
theorem Stmt.widen_resolve (hw : w.context = w'.context.widen p) {s s' : Stmt}
    (h : s.Like renumbered s') (hp : p = .inside 0 → s.declaredNames = []) :
    (s.resolve w).context = (s'.resolve w').context.widen p := by
  rw [s.context_resolve_eq, s'.context_resolve_eq, s.declaredNames_of_like s' h,
    Context.widen_defineAll _ hp, hw]

mutual

theorem Stmt.lifted_of_like {p : Setting} {w w' : Walk} (hw : w.context = w'.context.widen p) :
    (s s' : Stmt) →
    s.Like renumbered s' → (p = .inside 0 → s.declares? = none) → (∀ v ∈ s.visits w, v.Sound D) →
    (∀ v ∈ s'.visits w', v.Recorded D) → s.Lifted D p s'
  | .expr _ e, _, .expr ht he, _, h, h' => by
    cases ht
    exact .expr (Expr.lifted_visits hw he h h')
  | .print _ e, _, .print ht he, _, h, h' => by
    cases ht
    exact .print (Expr.lifted_visits hw he (fun v hv => h v (List.mem_append_left _ hv))
      fun v hv => h' v (List.mem_append_left _ hv))
  | .var _ x none, _, .var ht hx .none, hp, _, _ => by
    cases ht
    obtain rfl := ident_eq hx
    exact .var (fun hp0 => by cases hp hp0) .none
  | .var _ x (some e), _, .var ht hx (.some he), hp, h, h' => by
    cases ht
    obtain rfl := ident_eq hx
    have hp0 : p ≠ .inside 0 := fun hp0 => by cases hp hp0
    have hd : (w.declare x).context = (w'.declare x).context.widen p := by
      rw [w.context_declare, w'.context_declare, Context.widen_declare _ hp0, hw]
    exact .var hp0 (.some (Expr.lifted_visits hd he (fun v hv => h v (List.mem_cons_of_mem _ hv))
      fun v hv => h' v (List.mem_cons_of_mem _ hv)))
  | .block _ b, _, .block ht hb, _, h, h' => by
    cases ht
    have ho : w.openScope.context = w'.openScope.context.widen p.deeper := by
      rw [w.context_openScope, hw, Context.widen_openScope, w'.context_openScope]
    exact .block (Stmt.liftedAll_of_like ho b _ hb (fun hp0 => absurd hp0 p.deeper_ne) h h')
  | .ifElse _ c s none, _, .ifElse ht hc hs .none, _, h, h' => by
    cases ht
    simp only [Stmt.visits, List.mem_append, List.mem_cons] at h h'
    exact .ifThen (Expr.lifted_visits hw hc (fun v hv => h v (.inl hv)) fun v hv => h' v (.inl hv))
      (s.lifted_of_like (Expr.widen_resolve hw c _) _ hs (fun _ => (h _ (.inr (.inl rfl))).proper)
        (fun v hv => h v (.inr (.inr hv))) fun v hv => h' v (.inr (.inr hv)))
  | .ifElse _ c s (some n), _, .ifElse ht hc hs (.some hn), _, h, h' => by
    cases ht
    simp only [Stmt.visits, List.mem_append, List.mem_cons] at h h'
    have hd : s.declares? = none := (h _ (.inl (.inr (.inl rfl)))).proper
    have hnames : s.declaredNames = [] := by
      rw [s.declaredNames_eq (c.resolve w) fun v hv => (h v (.inl (.inr (.inr hv)))).proper, hd]
      rfl
    exact .ifElse (Expr.lifted_visits hw hc (fun v hv => h v (.inl (.inl hv))) fun v hv =>
      h' v (.inl (.inl hv)))
      (s.lifted_of_like (Expr.widen_resolve hw c _) _ hs (fun _ => hd)
        (fun v hv => h v (.inl (.inr (.inr hv))))
        fun v hv => h' v (.inl (.inr (.inr hv))))
      (n.lifted_of_like (Stmt.widen_resolve (Expr.widen_resolve hw c _) hs fun _ => hnames) _ hn
        (fun _ => (h _ (.inr (.inl rfl))).proper) (fun v hv => h v (.inr (.inr hv)))
        fun v hv => h' v (.inr (.inr hv)))
  | .whileLoop _ c s, _, .whileLoop ht hc hs, _, h, h' => by
    cases ht
    simp only [Stmt.visits, List.mem_append, List.mem_cons] at h h'
    exact .whileLoop (Expr.lifted_visits hw hc (fun v hv => h v (.inl hv)) fun v hv =>
      h' v (.inl hv))
      (s.lifted_of_like (Expr.widen_resolve hw c _) _ hs (fun _ => (h _ (.inr (.inl rfl))).proper)
        (fun v hv => h v (.inr (.inr hv))) fun v hv => h' v (.inr (.inr hv)))
  | .function d, _, .function hd, hp, h, h' => by
    have hp0 : p ≠ .inside 0 := fun hp0 => by cases hp hp0
    have hx := ident_eq hd.name
    have hr : ((w.declare d.name).define d.name.name).context =
        ((w'.declare d.name).define d.name.name).context.widen p := by
      rw [w.context_declare_define, w'.context_declare_define, Context.widen_define _ hp0, hw]
    rw [Stmt.visits, ← hx] at h'
    exact .function hp0
      (d.lifted_of_like hr _ hd .function (fun v hv => h v (List.mem_cons_of_mem _ hv))
        fun v hv => h' v (List.mem_cons_of_mem _ hv))
  | .classDecl _ x none ms, _, .classDecl ht hx .none hms, hp, h, h' => by
    cases ht
    obtain rfl := ident_eq hx
    have hp0 : p ≠ .inside 0 := fun hp0 => by cases hp hp0
    exact .plainClass hp0 (FunctionDecl.liftedAll_of_like (Walk.widen_enterClass hw hp0 x) ms _ hms
      (fun v hv => h v (List.mem_append_right _ hv)) fun v hv => h' v (List.mem_append_right _ hv))
  | .classDecl _ x (some c) ms, _, .classDecl ht hx (.some hc) hms, hp, h, h' => by
    cases ht
    obtain rfl := ident_eq hx
    have hp0 : p ≠ .inside 0 := fun hp0 => by cases hp hp0
    exact .subclass hp0
      (Superclass.lifted_of_like hw hp0 hc (fun v hv => h v (List.mem_append_left _ hv))
        fun v hv => h' v (List.mem_append_left _ hv))
      (FunctionDecl.liftedAll_of_like (Walk.widen_enterSubclass hw hp0 x c _) ms _ hms
        (fun v hv => h v (List.mem_append_right _ hv)) fun v hv =>
          h' v (List.mem_append_right _ hv))
  | .returning _ _ none, _, .returning ht hk .none, _, _, _ => by
    cases ht
    cases hk
    exact .returning .none
  | .returning _ k (some e), _, .returning ht hk (.some he), _, h, h' => by
    cases ht
    cases hk
    have hr : (w.checkReturn k true).context = (w'.checkReturn k true).context.widen p := by
      rw [w.context_checkReturn, w'.context_checkReturn, hw]
    exact .returning (.some (Expr.lifted_visits hr he (fun v hv => h v (List.mem_cons_of_mem _ hv))
      fun v hv => h' v (List.mem_cons_of_mem _ hv)))

theorem Stmt.liftedAll_of_like {p : Setting} {w w' : Walk} (hw : w.context = w'.context.widen p) :
    (ss ss' : List Stmt) → List.Forall₂ (Stmt.Like renumbered) ss ss' →
    (p = .inside 0 → ∀ s ∈ ss, s.declares? = none) → (∀ v ∈ Stmt.visitsAll w ss, v.Sound D) →
    (∀ v ∈ Stmt.visitsAll w' ss', v.Recorded D) → Stmt.LiftedAll D p ss ss'
  | [], _, .nil, _, _, _ => .nil
  | s :: ss, _, .cons hs hss, hp, h, h' => by
    have hh : ∀ v ∈ s.visits w, v.Sound D := fun v hv => h v (List.mem_append_left _ hv)
    have hnames : p = .inside 0 → s.declaredNames = [] := fun hp0 => by
      rw [s.declaredNames_eq w fun v hv => (hh v hv).proper, hp hp0 s List.mem_cons_self]
      rfl
    exact .cons
      (s.lifted_of_like hw _ hs (fun hp0 => hp hp0 s List.mem_cons_self) hh
        fun v hv => h' v (List.mem_append_left _ hv))
      (Stmt.liftedAll_of_like (Stmt.widen_resolve hw hs hnames) ss _ hss
        (fun hp0 t ht => hp hp0 t (List.mem_cons_of_mem _ ht))
          (fun v hv => h v (List.mem_append_right _ hv))
        fun v hv => h' v (List.mem_append_right _ hv))

theorem FunctionDecl.lifted_of_like {p : Setting} {w w' : Walk}
    (hw : w.context = w'.context.widen p) :
    (d d' : FunctionDecl) → d.Like renumbered d' → (kind : FunctionKind) →
    (∀ v ∈ d.visits w kind, v.Sound D) →
    (∀ v ∈ d'.visits w' kind, v.Recorded D) → d.Lifted D p d'
  | .mk x ps b _, _, .mk hx hps hb ht, kind, h, h' => by
    cases ht
    obtain rfl := ident_eq hx
    obtain rfl : ps = _ := (Likeness.eq_of_forall₂ (fun _ _ hx => (ident_eq hx).symm) hps).symm
    have hr : ({ w with function := kind }.openScope.declareAll ps).context =
        ({ w' with function := kind }.openScope.declareAll ps).context.widen p.deeper := by
      rw [Walk.context_declareAll_eq, Walk.context_declareAll_eq,
        Context.widen_defineAll _ fun hp0 => absurd hp0 p.deeper_ne, Walk.context_openScope,
        Walk.context_openScope, ← Context.widen_openScope, Walk.widen_withFunction hw kind]
    exact .mk (Stmt.liftedAll_of_like hr b _ hb (fun hp0 => absurd hp0 p.deeper_ne)
      (fun v hv => h v (List.mem_append_right _ hv)) fun v hv => h' v (List.mem_append_right _ hv))

theorem FunctionDecl.liftedAll_of_like {p : Setting} {w w' : Walk}
    (hw : w.context = w'.context.widen p) :
    (ds ds' : List FunctionDecl) → List.Forall₂ (FunctionDecl.Like renumbered) ds ds' →
    (∀ v ∈ FunctionDecl.visitsMethods w ds, v.Sound D) →
    (∀ v ∈ FunctionDecl.visitsMethods w' ds', v.Recorded D) → FunctionDecl.LiftedAll D p ds ds'
  | [], _, .nil, _, _ => .nil
  | d :: ds, _, .cons hd hds, h, h' => by
    rw [FunctionDecl.visitsMethods, hd.name.name] at h'
    exact .cons
      (d.lifted_of_like hw _ hd _ (fun v hv => h v (List.mem_append_left _ hv))
        fun v hv => h' v (List.mem_append_left _ hv))
      (FunctionDecl.liftedAll_of_like (FunctionDecl.widen_resolve hw d _ _) ds _ hds
        (fun v hv => h v (List.mem_append_right _ hv))
        fun v hv => h' v (List.mem_append_right _ hv))

end

end Lox
