import Lox.Scope.Resolve
/-!
# What the walk visits

The walk that resolves names stops at every node of a program once, in a context: the scopes that
are open there, the kind of function and the kind of class around it. All that the walk finds it
finds in these stops, and what it finds in one of them depends on nothing but the node and its
context. So the distances and the errors of a program are read off the list of its visits.
-/

namespace Lox

/-- What the walk knows at a place about the program around it. -/
structure Context where
  scopes : List Scope
  function : FunctionKind
  classKind : ClassKind

namespace Context

/-- The number of scopes between the innermost one and the nearest that holds the name. -/
def nearest? (c : Context) (x : String) : Option Nat := c.scopes.findIdx? (·.contains x)

/-- Whether the nearest scope that holds the name holds it as defined. -/
def status? (c : Context) (x : String) : Option Bool := c.scopes.findSome? (·.find? x)

/-- Whether the innermost scope holds the name as declared but not defined. -/
def isUndefined (c : Context) (x : String) : Bool :=
  match c.scopes with
  | [] => false
  | s :: _ => s.find? x == some false

/-- Whether the innermost scope holds the name. -/
def holdsHere (c : Context) (x : String) : Bool :=
  match c.scopes with
  | [] => false
  | s :: _ => s.contains x

end Context

def Walk.context (w : Walk) : Context := ⟨w.scopes, w.function, w.classKind⟩

/-- What the walk stops at. -/
inductive Sight where
  | expr (e : Expr)
  | print (span : Span)
  | declaration (x : Ident)
  | inheritance (x : Ident) (parent : Superclass)
  /-- A statement that stands by itself as a branch or as the body of a loop. -/
  | branch (s : Stmt)
  | returning (keyword : Span) (hasValue : Bool)

/-- The number of the expression that is looked at. -/
def Sight.id? : Sight → Option Nat
  | .expr e => some e.site.id
  | _ => none

structure Visit where
  sight : Sight
  context : Context

namespace Visit

/-- The number of the expression that is visited. -/
def id? (v : Visit) : Option Nat := v.sight.id?

/-- The distance that is recorded in a visit. -/
def distance? (v : Visit) : Option Nat :=
  match v.sight with
  | .expr (.var _ x) => v.context.nearest? x.name
  | .expr (.assign _ x _) => v.context.nearest? x.name
  | .expr (.this _) => if v.context.classKind = .none then none else v.context.nearest? "this"
  | .expr (.super _ _) => v.context.nearest? "super"
  | _ => none

/-- The distances after a visit. -/
def record (v : Visit) (d : Distances) : Distances :=
  match v.sight with
  | .expr e => v.distance?.elim d (d.insert e.site.id ·)
  | _ => d

/-- The errors that are reported in a visit. -/
def errors (v : Visit) : List (Located ScopeError) :=
  match v.sight with
  | .expr (.var _ x) =>
    if v.context.isUndefined x.name then [⟨.selfReferentialInitializer, x.span⟩] else []
  | .expr (.this s) => if v.context.classKind = .none then [⟨.thisOutsideClass, s.span⟩] else []
  | .expr (.super s _) =>
    match v.context.classKind with
    | .none => [⟨.superOutsideClass, s.span⟩]
    | .plain => [⟨.superWithoutSuperclass, s.span⟩]
    | .subclass => []
  | .declaration x => if v.context.holdsHere x.name then [⟨.alreadyDeclared, x.span⟩] else []
  | .inheritance x p => if p.name.name == x.name then [⟨.selfInheritance, p.name.span⟩] else []
  | .returning k hasValue =>
    (if v.context.function = .none then [⟨.returnOutsideFunction, k⟩] else []) ++
      if hasValue && v.context.function = .initializer then
        [⟨.returnValueFromInitializer, k⟩] else []
  | _ => []

end Visit

/-! ### The visits of a program -/

/-- The variable that a superclass is. -/
def Superclass.node (p : Superclass) : Expr := .var p.site p.name

mutual

/-- The nodes of an expression in the order in which they are visited. -/
def Expr.nodes : Expr → List Expr
  | .literal s l => [.literal s l]
  | .grouping s e => e.nodes ++ [.grouping s e]
  | .unary s op t e => e.nodes ++ [.unary s op t e]
  | .binary s l op t r => l.nodes ++ r.nodes ++ [.binary s l op t r]
  | .logical s l op r => l.nodes ++ r.nodes ++ [.logical s l op r]
  | .var s x => [.var s x]
  | .assign s x e => e.nodes ++ [.assign s x e]
  | .call s f t es => f.nodes ++ Expr.nodesAll es ++ [.call s f t es]
  | .get s e x => e.nodes ++ [.get s e x]
  | .set s e x v => v.nodes ++ e.nodes ++ [.set s e x v]
  | .this s => [.this s]
  | .super s x => [.super s x]

def Expr.nodesAll : List Expr → List Expr
  | [] => []
  | e :: es => e.nodes ++ Expr.nodesAll es

end

theorem Expr.self_mem_nodes (e : Expr) : e ∈ e.nodes := by
  cases e <;> simp [Expr.nodes]

/-- The visits to the nodes of an expression, all of them in one context. -/
def Expr.visits (w : Walk) (e : Expr) : List Visit := e.nodes.map fun n => ⟨.expr n, w.context⟩

namespace Walk

/-- The visits to the parameters of a function whose scope is open. -/
def parameterVisits (w : Walk) : List Ident → List Visit
  | [] => []
  | x :: xs => ⟨.declaration x, w.context⟩ :: ((w.declare x).define x.name).parameterVisits xs

/-- The visits on the way into a class. -/
def classVisits (w : Walk) (x : Ident) (parent : Option Superclass) : List Visit :=
  let w := { w with classKind := .plain }
  ⟨.declaration x, w.context⟩ ::
    match parent with
    | none => []
    | some p =>
      let w := (w.declare x).define x.name
      [⟨.inheritance x p, w.context⟩, ⟨.expr p.node, { w with classKind := .subclass }.context⟩]

end Walk

mutual

def Stmt.visits (w : Walk) : Stmt → List Visit
  | .expr _ e => e.visits w
  | .print t e => e.visits w ++ [⟨.print t, w.context⟩]
  | .var _ x none => [⟨.declaration x, w.context⟩]
  | .var _ x (some e) => ⟨.declaration x, w.context⟩ :: e.visits (w.declare x)
  | .block _ b => Stmt.visitsAll w.openScope b
  | .ifElse _ c s none => c.visits w ++ ⟨.branch s, w.context⟩ :: s.visits (c.resolve w)
  | .ifElse _ c s (some t) =>
    c.visits w ++ ⟨.branch s, w.context⟩ :: s.visits (c.resolve w) ++
      ⟨.branch t, w.context⟩ :: t.visits (s.resolve (c.resolve w))
  | .whileLoop _ c s => c.visits w ++ ⟨.branch s, w.context⟩ :: s.visits (c.resolve w)
  | .function d =>
    ⟨.declaration d.name, w.context⟩ :: d.visits ((w.declare d.name).define d.name.name) .function
  | .classDecl _ x p ms => w.classVisits x p ++ FunctionDecl.visitsMethods (w.enterClass x p) ms
  | .returning _ k none => [⟨.returning k false, w.context⟩]
  | .returning _ k (some e) => ⟨.returning k true, w.context⟩ :: e.visits (w.checkReturn k true)

def Stmt.visitsAll (w : Walk) : List Stmt → List Visit
  | [] => []
  | s :: ss => s.visits w ++ Stmt.visitsAll (s.resolve w) ss

def FunctionDecl.visits (w : Walk) : FunctionDecl → FunctionKind → List Visit
  | .mk _ ps b _, kind =>
    let inner := { w with function := kind }.openScope
    inner.parameterVisits ps ++ Stmt.visitsAll (inner.declareAll ps) b

def FunctionDecl.visitsMethods (w : Walk) : List FunctionDecl → List Visit
  | [] => []
  | d :: ds =>
    let kind := FunctionKind.ofMethod d.name.name
    d.visits w kind ++ FunctionDecl.visitsMethods (d.resolve w kind) ds

end

namespace Walk

theorem context_reportIf (w : Walk) (b : Bool) (e : ScopeError) (s : Span) :
    (w.reportIf b e s).context = w.context := by
  cases b <;> rfl

theorem context_locate (w : Walk) (id : Nat) (x : String) :
    (w.locate id x).context = w.context := by
  unfold locate
  split <;> rfl

theorem context_read (w : Walk) (s : Site) (x : Ident) : (w.read s x).context = w.context :=
  (context_locate _ _ _).trans (context_reportIf _ _ _ _)

theorem context_useThis (w : Walk) (s : Site) : (w.useThis s).context = w.context := by
  unfold useThis
  split
  · rfl
  · exact context_locate _ _ _

theorem context_useSuper (w : Walk) (s : Site) : (w.useSuper s).context = w.context := by
  rw [useSuper, context_locate]
  split <;> rfl

theorem context_checkReturn (w : Walk) (k : Span) (b : Bool) :
    (w.checkReturn k b).context = w.context :=
  (context_reportIf _ _ _ _).trans (context_reportIf _ _ _ _)

end Walk

/-! ### What the walk finds -/

structure Findings where
  distances : Distances
  errors : List (Located ScopeError)

def Findings.note (f : Findings) (v : Visit) : Findings :=
  ⟨v.record f.distances, f.errors ++ v.errors⟩

/-- Nothing is found at a node that names no variable. -/
theorem Findings.note_other (f : Findings) (v : Visit) (hd : v.distance? = none)
    (he : v.errors = []) : f.note v = f := by
  have hr : v.record f.distances = f.distances := by
    unfold Visit.record
    split
    · rw [hd]
      rfl
    · rfl
  simp [Findings.note, hr, he]

@[simp] theorem Findings.note_print (f : Findings) (t : Span) (c : Context) :
    f.note ⟨.print t, c⟩ = f :=
  f.note_other _ rfl rfl

@[simp] theorem Findings.note_branch (f : Findings) (s : Stmt) (c : Context) :
    f.note ⟨.branch s, c⟩ = f :=
  f.note_other _ rfl rfl

namespace Walk

def findings (w : Walk) : Findings := ⟨w.distances, w.errors.toList⟩

@[simp] theorem findings_openScope (w : Walk) : w.openScope.findings = w.findings := rfl

@[simp] theorem findings_closeScope (w : Walk) : w.closeScope.findings = w.findings := rfl

@[simp] theorem findings_withFunction (w : Walk) (k : FunctionKind) :
    { w with function := k }.findings = w.findings := rfl

@[simp] theorem findings_withClassKind (w : Walk) (k : ClassKind) :
    { w with classKind := k }.findings = w.findings := rfl

@[simp] theorem findings_define (w : Walk) (x : String) : (w.define x).findings = w.findings := by
  unfold define
  split <;> rfl

theorem findings_reportIf (w : Walk) (b : Bool) (e : ScopeError) (s : Span) :
    (w.reportIf b e s).findings = ⟨w.distances, w.errors.toList ++ if b then [⟨e, s⟩] else []⟩ := by
  cases b <;> simp [reportIf, report, findings]

theorem findings_declare (w : Walk) (x : Ident) :
    (w.declare x).findings = w.findings.note ⟨.declaration x, w.context⟩ := by
  unfold declare
  split
  · rename_i h
    simp [Findings.note, Visit.record, Visit.errors, Context.holdsHere, context, findings, h]
  · rename_i s ss h
    by_cases hx : s.contains x.name = true
    · simp [Findings.note, Visit.record, Visit.errors, Context.holdsHere, context, findings, report,
        h, hx]
    · simp [Findings.note, Visit.record, Visit.errors, Context.holdsHere, context, findings, h, hx]

theorem findings_locate (w : Walk) (id : Nat) (x : String) :
    (w.locate id x).findings =
      ⟨(w.context.nearest? x).elim w.distances (w.distances.insert id ·), w.errors.toList⟩ := by
  unfold locate
  split <;> rename_i h <;> simp [findings, context, Context.nearest?, h]

theorem findings_read (w : Walk) (s : Site) (x : Ident) :
    (w.read s x).findings = w.findings.note ⟨.expr (.var s x), w.context⟩ := by
  have hs := w.context_reportIf (w.isUndefined x.name) .selfReferentialInitializer x.span
  have hf := findings_reportIf w (w.isUndefined x.name) .selfReferentialInitializer x.span
  rw [findings, Findings.mk.injEq] at hf
  rw [read, findings_locate, hs, hf.1, hf.2]
  rfl

theorem findings_useThis (w : Walk) (s : Site) :
    (w.useThis s).findings = w.findings.note ⟨.expr (.this s), w.context⟩ := by
  unfold useThis
  by_cases hk : w.classKind = .none
  · simp [hk, Findings.note, Visit.record, Visit.distance?, Visit.errors, findings, report, context]
  · rw [if_neg hk, findings_locate]
    simp [Findings.note, Visit.record, Visit.distance?, Visit.errors, findings, hk, Expr.site,
      context]

theorem findings_useSuper (w : Walk) (s : Site) (x : Ident) :
    (w.useSuper s).findings = w.findings.note ⟨.expr (.super s x), w.context⟩ := by
  unfold useSuper
  cases hk : w.classKind <;> rw [findings_locate] <;>
    simp [Findings.note, Visit.record, Visit.distance?, Visit.errors, findings, hk, Expr.site,
      context, report]

theorem findings_assign (w : Walk) (s : Site) (x : Ident) (e : Expr) :
    (w.locate s.id x.name).findings = w.findings.note ⟨.expr (.assign s x e), w.context⟩ := by
  rw [findings_locate]
  simp [Findings.note, Visit.record, Visit.distance?, Visit.errors, findings, Expr.site]

theorem findings_checkReturn (w : Walk) (k : Span) (b : Bool) :
    (w.checkReturn k b).findings = w.findings.note ⟨.returning k b, w.context⟩ := by
  have hf := findings_reportIf w (w.function = .none) .returnOutsideFunction k
  rw [findings, Findings.mk.injEq] at hf
  rw [checkReturn, findings_reportIf, hf.1, hf.2, List.append_assoc]
  simp only [Findings.note, Visit.record, Visit.errors, findings, context, decide_eq_true_eq]
  rfl

end Walk

/-! ### Visits leave the context as it is -/

mutual

@[simp] theorem Expr.context_resolve (w : Walk) : (e : Expr) → (e.resolve w).context = w.context
  | .literal _ _ => rfl
  | .grouping _ e => e.context_resolve w
  | .unary _ _ _ e => e.context_resolve w
  | .binary _ l _ _ r => (r.context_resolve (l.resolve w)).trans (l.context_resolve w)
  | .logical _ l _ r => (r.context_resolve (l.resolve w)).trans (l.context_resolve w)
  | .var _ _ => w.context_read _ _
  | .assign _ _ e => (Walk.context_locate _ _ _).trans (e.context_resolve w)
  | .call _ f _ es => (Expr.context_resolveAll (f.resolve w) es).trans (f.context_resolve w)
  | .get _ e _ => e.context_resolve w
  | .set _ e _ v => (e.context_resolve (v.resolve w)).trans (v.context_resolve w)
  | .this _ => w.context_useThis _
  | .super _ _ => w.context_useSuper _

@[simp] theorem Expr.context_resolveAll (w : Walk) :
    (es : List Expr) → (Expr.resolveAll w es).context = w.context
  | [] => rfl
  | e :: es => (Expr.context_resolveAll (e.resolve w) es).trans (e.context_resolve w)

end

/-! ### Findings are notes of visits -/

theorem Expr.visits_congr {w u : Walk} (h : u.context = w.context) (e : Expr) :
    e.visits u = e.visits w := by
  simp only [Expr.visits, h]

/-- The visits to the nodes of several expressions. -/
def Expr.visitsAll (w : Walk) (es : List Expr) : List Visit :=
  (Expr.nodesAll es).map fun n => ⟨.expr n, w.context⟩

mutual

theorem Expr.findings_resolve (w : Walk) :
    (e : Expr) → (e.resolve w).findings = (e.visits w).foldl Findings.note w.findings
  | .literal _ _ => (Findings.note_other _ _ rfl rfl).symm
  | .grouping s e => by
    rw [Expr.resolve, e.findings_resolve]
    simp only [Expr.visits, Expr.nodes, List.map_append, List.foldl_append]
    exact (Findings.note_other _ _ rfl rfl).symm
  | .unary s op t e => by
    rw [Expr.resolve, e.findings_resolve]
    simp only [Expr.visits, Expr.nodes, List.map_append, List.foldl_append]
    exact (Findings.note_other _ _ rfl rfl).symm
  | .binary s l op t r => by
    rw [Expr.resolve, r.findings_resolve, l.findings_resolve, r.visits_congr (l.context_resolve w)]
    simp only [Expr.visits, Expr.nodes, List.map_append, List.foldl_append]
    exact (Findings.note_other _ _ rfl rfl).symm
  | .logical s l op r => by
    rw [Expr.resolve, r.findings_resolve, l.findings_resolve, r.visits_congr (l.context_resolve w)]
    simp only [Expr.visits, Expr.nodes, List.map_append, List.foldl_append]
    exact (Findings.note_other _ _ rfl rfl).symm
  | .var s x => w.findings_read s x
  | .assign s x e => by
    rw [Expr.resolve, Walk.findings_assign _ s x e, e.findings_resolve, e.context_resolve]
    simp [Expr.visits, Expr.nodes]
  | .call s f t es => by
    rw [Expr.resolve, Expr.findings_resolveAll, f.findings_resolve, Expr.visitsAll,
      f.context_resolve]
    simp only [Expr.visits, Expr.nodes, List.map_append, List.foldl_append]
    exact (Findings.note_other _ _ rfl rfl).symm
  | .get s e x => by
    rw [Expr.resolve, e.findings_resolve]
    simp only [Expr.visits, Expr.nodes, List.map_append, List.foldl_append]
    exact (Findings.note_other _ _ rfl rfl).symm
  | .set s e x v => by
    rw [Expr.resolve, e.findings_resolve, v.findings_resolve, e.visits_congr (v.context_resolve w)]
    simp only [Expr.visits, Expr.nodes, List.map_append, List.foldl_append]
    exact (Findings.note_other _ _ rfl rfl).symm
  | .this s => w.findings_useThis s
  | .super s x => w.findings_useSuper s x

theorem Expr.findings_resolveAll (w : Walk) : (es : List Expr) →
    (Expr.resolveAll w es).findings = (Expr.visitsAll w es).foldl Findings.note w.findings
  | [] => rfl
  | e :: es => by
    rw [Expr.resolveAll, Expr.findings_resolveAll, e.findings_resolve, Expr.visitsAll,
      e.context_resolve]
    simp [Expr.visits, Expr.visitsAll, Expr.nodesAll]

end

namespace Walk

theorem findings_declareAll (w : Walk) (xs : List Ident) :
    (w.declareAll xs).findings = (w.parameterVisits xs).foldl Findings.note w.findings := by
  induction xs generalizing w with
  | nil => rfl
  | cons x xs ih =>
    rw [parameterVisits, List.foldl_cons, ← findings_declare,
      ← findings_define (w.declare x) x.name]
    exact ih _

theorem findings_enterClass (w : Walk) (x : Ident) (p : Option Superclass) :
    (w.enterClass x p).findings = (w.classVisits x p).foldl Findings.note w.findings := by
  have hd := findings_declare { w with classKind := .plain } x
  cases p with
  | none => simpa [enterClass, classVisits] using hd
  | some p =>
    let u := ({ w with classKind := .plain }.declare x).define x.name
    let v := u.reportIf (p.name.name == x.name) .selfInheritance p.name.span
    have hu : u.findings =
        w.findings.note ⟨.declaration x, { w with classKind := .plain }.context⟩ := by
      rw [findings_define, hd]
      rfl
    have hv : v.findings = u.findings.note ⟨.inheritance x p, u.context⟩ :=
      findings_reportIf _ _ _ _
    have hc : v.context = u.context := u.context_reportIf _ _ _
    have hr := findings_read { v with classKind := .subclass } p.site p.name
    have hs : { v with classKind := .subclass }.context =
        { u with classKind := .subclass }.context := by
      rw [context, Context.mk.injEq] at hc
      simp only [context, hc.1, hc.2.1]
    rw [hs] at hr
    change _ = v.findings.note _ at hr
    rw [hv, hu] at hr
    simp only [enterClass, classVisits, findings_define, findings_openScope]
    exact hr

theorem findings_leaveClass (w before : Walk) (p : Option Superclass) :
    (w.leaveClass before p).findings = w.findings := by
  cases p <;> rfl

end Walk

mutual

theorem Stmt.findings_resolve (w : Walk) :
    (s : Stmt) → (s.resolve w).findings = (s.visits w).foldl Findings.note w.findings
  | .expr _ e => e.findings_resolve w
  | .print t e => by
    rw [Stmt.resolve, e.findings_resolve, Stmt.visits]
    simp
  | .var _ x none => by
    rw [Stmt.resolve, Walk.findings_define, Walk.findings_declare, Stmt.visits]
    rfl
  | .var _ x (some e) => by
    rw [Stmt.resolve, Walk.findings_define, e.findings_resolve, Walk.findings_declare, Stmt.visits]
    rfl
  | .block _ b => by
    rw [Stmt.resolve, Walk.findings_closeScope, Stmt.findings_resolveAll, Stmt.visits]
    rfl
  | .ifElse _ c s none => by
    rw [Stmt.resolve, s.findings_resolve, c.findings_resolve, Stmt.visits]
    simp
  | .ifElse _ c s (some t) => by
    rw [Stmt.resolve, t.findings_resolve, s.findings_resolve, c.findings_resolve, Stmt.visits]
    simp
  | .whileLoop _ c s => by
    rw [Stmt.resolve, s.findings_resolve, c.findings_resolve, Stmt.visits]
    simp
  | .function d => by
    rw [Stmt.resolve, d.findings_resolve, Walk.findings_define, Walk.findings_declare, Stmt.visits]
    rfl
  | .classDecl _ x p ms => by
    rw [Stmt.resolve, Walk.findings_leaveClass, FunctionDecl.findings_resolveMethods,
      Walk.findings_enterClass, Stmt.visits, List.foldl_append]
  | .returning _ k none => w.findings_checkReturn k false
  | .returning _ k (some e) => by
    rw [Stmt.resolve, e.findings_resolve, Walk.findings_checkReturn, Stmt.visits]
    rfl

theorem Stmt.findings_resolveAll (w : Walk) : (ss : List Stmt) →
    (Stmt.resolveAll w ss).findings = (Stmt.visitsAll w ss).foldl Findings.note w.findings
  | [] => rfl
  | s :: ss => by
    rw [Stmt.resolveAll, Stmt.findings_resolveAll, s.findings_resolve, Stmt.visitsAll,
      List.foldl_append]

theorem FunctionDecl.findings_resolve (w : Walk) : (d : FunctionDecl) → (kind : FunctionKind) →
    (d.resolve w kind).findings = (d.visits w kind).foldl Findings.note w.findings
  | .mk _ ps b _, kind => by
    rw [FunctionDecl.resolve, Walk.findings_withFunction, Walk.findings_closeScope,
      Stmt.findings_resolveAll, Walk.findings_declareAll, FunctionDecl.visits, List.foldl_append]
    rfl

theorem FunctionDecl.findings_resolveMethods (w : Walk) : (ds : List FunctionDecl) →
    (FunctionDecl.resolveMethods w ds).findings =
      (FunctionDecl.visitsMethods w ds).foldl Findings.note w.findings
  | [] => rfl
  | d :: ds => by
    rw [FunctionDecl.resolveMethods, FunctionDecl.findings_resolveMethods, d.findings_resolve,
      FunctionDecl.visitsMethods, List.foldl_append]

end

end Lox
