import Lox.Proofs.Likeness.Syntax
import Lox.Proofs.Scoping.Agreement
/-!
# Resolving programs that are alike

The walks over two programs that are alike know the same all the way and find errors that are
alike. They record the same distances for numbers that are related: any relation on distances is
kept that recording keeps.
-/

namespace Lox

/-- Two walks that know the same and have found errors that are alike; `D`
relates their distances. -/
structure Walk.Like (L : Likeness) (D : Distances → Distances → Prop) (w w' : Walk) : Prop where
  scopes : w'.scopes = w.scopes
  function : w'.function = w.function
  classKind : w'.classKind = w.classKind
  distances : D w.distances w'.distances
  errors : List.Forall₂ L.Located w.errors.toList w'.errors.toList

/-- Recording a distance for numbers that are related keeps `D`. -/
def Likeness.Records (L : Likeness) (D : Distances → Distances → Prop) : Prop :=
  ∀ {d d' i i'} (n : Nat), D d d' → L.id i i' → D (d.insert i n) (d'.insert i' n)

variable {L : Likeness} {D : Distances → Distances → Prop} {w w' : Walk}

namespace Walk.Like

section

variable (h : w.Like L D w')

include h

theorem report (e : ScopeError) {s s' : Span} (hs : L.span s s') :
    (w.report e s).Like L D (w'.report e s') where
  scopes := h.scopes
  function := h.function
  classKind := h.classKind
  distances := h.distances
  errors := by
    rw [Walk.report, Walk.report, Array.toList_push, Array.toList_push]
    exact List.rel_append h.errors (.cons ⟨rfl, hs⟩ .nil)

theorem reportIf (b : Bool) (e : ScopeError) {s s' : Span} (hs : L.span s s') :
    (w.reportIf b e s).Like L D (w'.reportIf b e s') := by
  cases b with
  | true => exact h.report e hs
  | false => exact h

theorem withScopes (ss : List Scope) :
    Walk.Like L D { w with scopes := ss } { w' with scopes := ss } :=
  ⟨rfl, h.function, h.classKind, h.distances, h.errors⟩

theorem withFunction (k : FunctionKind) :
    Walk.Like L D { w with function := k } { w' with function := k } :=
  ⟨h.scopes, rfl, h.classKind, h.distances, h.errors⟩

theorem withClassKind (k : ClassKind) :
    Walk.Like L D { w with classKind := k } { w' with classKind := k } :=
  ⟨h.scopes, h.function, rfl, h.distances, h.errors⟩

theorem openScope : w.openScope.Like L D w'.openScope := by
  rw [Walk.openScope, Walk.openScope, h.scopes]
  exact h.withScopes _

theorem closeScope : w.closeScope.Like L D w'.closeScope := by
  rw [Walk.closeScope, Walk.closeScope, h.scopes]
  exact h.withScopes _

theorem declare {x x' : Ident} (hx : L.Ident x x') : (w.declare x).Like L D (w'.declare x') := by
  rw [Walk.declare, Walk.declare, h.scopes, hx.name]
  split
  · exact h
  · split
    · exact h.report _ hx.span
    · exact h.withScopes _

theorem define {x x' : String} (hx : x' = x) : (w.define x).Like L D (w'.define x') := by
  rw [Walk.define, Walk.define, h.scopes, hx]
  split
  · exact h
  · exact h.withScopes _

theorem locate (hD : L.Records D) {i i' : Nat} (hi : L.id i i') {x x' : String} (hx : x' = x) :
    (w.locate i x).Like L D (w'.locate i' x') := by
  rw [Walk.locate, Walk.locate, h.scopes, hx]
  split
  · exact ⟨rfl, h.function, h.classKind, hD _ h.distances hi, h.errors⟩
  · exact h

theorem read (hD : L.Records D) {s s' : Site} (hs : L.Site s s') {x x' : Ident}
    (hx : L.Ident x x') : (w.read s x).Like L D (w'.read s' x') := by
  have hb : w'.isUndefined x'.name = w.isUndefined x.name := by
    rw [isUndefined, isUndefined, h.scopes, hx.name]
  rw [Walk.read, Walk.read, hb]
  exact (h.reportIf _ _ hx.span).locate hD hs.id hx.name

theorem useThis (hD : L.Records D) {s s' : Site} (hs : L.Site s s') :
    (w.useThis s).Like L D (w'.useThis s') := by
  rw [Walk.useThis, Walk.useThis, h.classKind]
  split
  · exact h.report _ hs.span
  · exact h.locate hD hs.id rfl

theorem useSuper (hD : L.Records D) {s s' : Site} (hs : L.Site s s') :
    (w.useSuper s).Like L D (w'.useSuper s') := by
  rw [Walk.useSuper, Walk.useSuper, h.classKind]
  refine locate ?_ hD hs.id rfl
  split
  · exact h.report _ hs.span
  · exact h.report _ hs.span
  · exact h

theorem checkReturn {k k' : Span} (hk : L.span k k') (b : Bool) :
    (w.checkReturn k b).Like L D (w'.checkReturn k' b) := by
  rw [Walk.checkReturn, Walk.checkReturn, h.function]
  exact (h.reportIf _ _ hk).reportIf _ _ hk

theorem declareAll {xs xs' : List Ident} (hxs : List.Forall₂ L.Ident xs xs') :
    (w.declareAll xs).Like L D (w'.declareAll xs') := by
  induction hxs generalizing w w' with
  | nil => exact h
  | cons hx _ ih => exact ih ((h.declare hx).define hx.name)

theorem enterClass (hD : L.Records D) {x x' : Ident} (hx : L.Ident x x') {p p' : Option Superclass}
    (hp : Option.Rel L.Superclass p p') : (w.enterClass x p).Like L D (w'.enterClass x' p') := by
  have hclass := ((h.withClassKind .plain).declare hx).define hx.name
  cases hp with
  | none => exact hclass.openScope.define rfl
  | @some p p' hp =>
    have hself : (p'.name.name == x'.name) = (p.name.name == x.name) := by
      rw [hp.name.name, hx.name]
    have hread := ((hclass.reportIf (p.name.name ==
      x.name) .selfInheritance hp.name.span).withClassKind
      .subclass).read hD hp.site hp.name
    rw [Walk.enterClass, Walk.enterClass]
    simp only [hself]
    exact (hread.openScope.define rfl).openScope.define rfl

theorem leaveClass {u u' : Walk} (hu : u'.classKind = u.classKind) {p p' : Option Superclass}
    (hp : p'.isSome = p.isSome) : (w.leaveClass u p).Like L D (w'.leaveClass u' p') := by
  rw [Walk.leaveClass, Walk.leaveClass, hu, hp]
  split
  · exact h.closeScope.closeScope.withClassKind _
  · exact h.closeScope.withClassKind _

end

end Walk.Like

/-! ### Programs -/

mutual

theorem Expr.resolve_like (hD : L.Records D) :
    (e e' : Expr) → e.Like L e' → ∀ {w w'}, w.Like L D w' →
    (e.resolve w).Like L D (e'.resolve w')
  | .literal _ _, _, .literal _, _, _, h => h
  | .grouping _ e, _, .grouping _ he, _, _, h => e.resolve_like hD _ he h
  | .unary _ _ _ e, _, .unary _ _ he, _, _, h => e.resolve_like hD _ he h
  | .binary _ l _ _ r, _, .binary _ hl _ hr, _, _, h =>
    r.resolve_like hD _ hr (l.resolve_like hD _ hl h)
  | .logical _ l _ r, _, .logical _ hl hr, _, _, h =>
    r.resolve_like hD _ hr (l.resolve_like hD _ hl h)
  | .var _ _, _, .var hs hx, _, _, h => h.read hD hs hx
  | .assign _ _ e, _, .assign hs hx he, _, _, h =>
    (e.resolve_like hD _ he h).locate hD hs.id hx.name
  | .call _ f _ es, _, .call _ hf _ hes, _, _, h =>
    Expr.resolveAll_like hD es _ hes (f.resolve_like hD _ hf h)
  | .get _ e _, _, .get _ he _, _, _, h => e.resolve_like hD _ he h
  | .set _ e _ v, _, .set _ he _ hv, _, _, h => e.resolve_like hD _ he (v.resolve_like hD _ hv h)
  | .this _, _, .this hs, _, _, h => h.useThis hD hs
  | .super _ _, _, .super hs _, _, _, h => h.useSuper hD hs

theorem Expr.resolveAll_like (hD : L.Records D) :
    (es es' : List Expr) → List.Forall₂ (Expr.Like L) es es' →
    ∀ {w w'}, w.Like L D w' → (Expr.resolveAll w es).Like L D (Expr.resolveAll w' es')
  | [], _, .nil, _, _, h => h
  | e :: es, _, .cons he hes, _, _, h => Expr.resolveAll_like hD es _ hes (e.resolve_like hD _ he h)

end

mutual

theorem Stmt.resolve_like (hD : L.Records D) :
    (s s' : Stmt) → s.Like L s' → ∀ {w w'}, w.Like L D w' →
    (s.resolve w).Like L D (s'.resolve w')
  | .expr _ e, _, .expr _ he, _, _, h => e.resolve_like hD _ he h
  | .print _ e, _, .print _ he, _, _, h => e.resolve_like hD _ he h
  | .var _ _ none, _, .var _ hx .none, _, _, h => (h.declare hx).define hx.name
  | .var _ _ (some e), _, .var _ hx (.some he), _, _, h =>
    (e.resolve_like hD _ he (h.declare hx)).define hx.name
  | .block _ b, _, .block _ hb, _, _, h => (Stmt.resolveAll_like hD b _ hb h.openScope).closeScope
  | .ifElse _ c s none, _, .ifElse _ hc hs .none, _, _, h =>
    s.resolve_like hD _ hs (c.resolve_like hD _ hc h)
  | .ifElse _ c s (some n), _, .ifElse _ hc hs (.some hn), _, _, h =>
    n.resolve_like hD _ hn (s.resolve_like hD _ hs (c.resolve_like hD _ hc h))
  | .whileLoop _ c s, _, .whileLoop _ hc hs, _, _, h =>
    s.resolve_like hD _ hs (c.resolve_like hD _ hc h)
  | .function d, _, .function hd, _, _, h =>
    d.resolve_like hD _ hd .function ((h.declare hd.name).define hd.name.name)
  | .classDecl _ _ _ ms, _, .classDecl _ hx hp hms, _, _, h =>
    (FunctionDecl.resolveMethods_like hD ms _ hms (h.enterClass hD hx hp)).leaveClass h.classKind
      (by cases hp <;> rfl)
  | .returning _ _ none, _, .returning _ hk .none, _, _, h => h.checkReturn hk false
  | .returning _ _ (some e), _, .returning _ hk (.some he), _, _, h =>
    e.resolve_like hD _ he (h.checkReturn hk true)

theorem Stmt.resolveAll_like (hD : L.Records D) :
    (ss ss' : List Stmt) → List.Forall₂ (Stmt.Like L) ss ss' →
    ∀ {w w'}, w.Like L D w' → (Stmt.resolveAll w ss).Like L D (Stmt.resolveAll w' ss')
  | [], _, .nil, _, _, h => h
  | s :: ss, _, .cons hs hss, _, _, h => Stmt.resolveAll_like hD ss _ hss (s.resolve_like hD _ hs h)

theorem FunctionDecl.resolve_like (hD : L.Records D) : (d d' : FunctionDecl) → d.Like L d' →
    ∀ (k : FunctionKind) {w w'}, w.Like L D w' → (d.resolve w k).Like L D (d'.resolve w' k)
  | .mk _ _ b _, _, .mk _ hps hb _, k, w, w', h => by
    have hinner := (h.withFunction k).openScope.declareAll hps
    have hbody := (Stmt.resolveAll_like hD b _ hb hinner).closeScope.withFunction w.function
    rw [FunctionDecl.resolve, FunctionDecl.resolve, h.function]
    exact hbody

theorem FunctionDecl.resolveMethods_like (hD : L.Records D) : (ds ds' : List FunctionDecl) →
    List.Forall₂ (FunctionDecl.Like L) ds ds' → ∀ {w w'}, w.Like L D w' →
    (FunctionDecl.resolveMethods w ds).Like L D (FunctionDecl.resolveMethods w' ds')
  | [], _, .nil, _, _, h => h
  | d :: ds, _, .cons hd hds, _, _, h => by
    rw [FunctionDecl.resolveMethods, FunctionDecl.resolveMethods, hd.name.name]
    exact FunctionDecl.resolveMethods_like hD ds _ hds (d.resolve_like hD _ hd _ h)

end

end Lox
