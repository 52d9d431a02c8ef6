import Mathlib.Data.List.Forall2
import Lox.Proofs.Reading.Sights
/-!
# Programs that are alike

Two programs are alike when they differ in nothing but the spans of their nodes and the numbers of
their expressions. How these may differ is a parameter: a relation on spans, one on numbers, and one
on the distances that are recorded for numbers, which must give related numbers the same distance.
-/

namespace Lox

/-- How the spans and the numbers of two programs may differ. -/
structure Likeness where
  span : Span → Span → Prop
  id : Nat → Nat → Prop
  distances : Distances → Distances → Prop
  get? : ∀ {d d' i i'}, distances d d' → id i i' → d'.get? i' = d.get? i

namespace Likeness

/-- Nothing differs. -/
def same : Likeness := ⟨Eq, Eq, Eq, by rintro d _ i _ rfl rfl; rfl⟩

/-- Distances agree on all related numbers. -/
def agreeing (span : Span → Span → Prop) (id : Nat → Nat → Prop) : Likeness :=
  ⟨span, id, fun d d' => ∀ i i', id i i' → d'.get? i' = d.get? i, fun h hi => h _ _ hi⟩

structure Site (L : Likeness) (s s' : Lox.Site) : Prop where
  id : L.id s.id s'.id
  span : L.span s.span s'.span

structure Ident (L : Likeness) (x x' : Lox.Ident) : Prop where
  name : x'.name = x.name
  span : L.span x.span x'.span

structure Superclass (L : Likeness) (p p' : Lox.Superclass) : Prop where
  site : L.Site p.site p'.site
  name : L.Ident p.name p'.name

structure Located {α : Type} (L : Likeness) (e e' : Lox.Located α) : Prop where
  item : e'.item = e.item
  span : L.span e.span e'.span

/-- The spans and the numbers may differ. -/
def any : Likeness := .agreeing (fun _ _ => True) fun _ _ => True

theorem any_site (s s' : Lox.Site) : any.Site s s' := ⟨trivial, trivial⟩

end Likeness

variable (L : Likeness)

inductive Expr.Like : Expr → Expr → Prop where
  | literal {s s' l} : L.Site s s' → Like (.literal s l) (.literal s' l)
  | grouping {s s' e e'} : L.Site s s' → Like e e' → Like (.grouping s e) (.grouping s' e')
  | unary {s s' op t t' e e'} : L.Site s s' → L.span t t' → Like e e' →
    Like (.unary s op t e) (.unary s' op t' e')
  | binary {s s' l l' op t t' r r'} : L.Site s s' → Like l l' → L.span t t' → Like r r' →
    Like (.binary s l op t r) (.binary s' l' op t' r')
  | logical {s s' l l' op r r'} : L.Site s s' → Like l l' → Like r r' →
    Like (.logical s l op r) (.logical s' l' op r')
  | var {s s' x x'} : L.Site s s' → L.Ident x x' → Like (.var s x) (.var s' x')
  | assign {s s' x x' e e'} : L.Site s s' → L.Ident x x' → Like e e' →
      Like (.assign s x e) (.assign s' x' e')
  | call {s s' f f' t t' es es'} : L.Site s s' → Like f f' → L.span t t' →
      List.Forall₂ Like es es' →
    Like (.call s f t es) (.call s' f' t' es')
  | get {s s' e e' x x'} : L.Site s s' → Like e e' → L.Ident x x' →
      Like (.get s e x) (.get s' e' x')
  | set {s s' e e' x x' v v'} : L.Site s s' → Like e e' → L.Ident x x' → Like v v' →
    Like (.set s e x v) (.set s' e' x' v')
  | this {s s'} : L.Site s s' → Like (.this s) (.this s')
  | super {s s' x x'} : L.Site s s' → L.Ident x x' → Like (.super s x) (.super s' x')

mutual

inductive Stmt.Like : Stmt → Stmt → Prop where
  | expr {t t' e e'} : L.span t t' → e.Like L e' → Stmt.Like (.expr t e) (.expr t' e')
  | print {t t' e e'} : L.span t t' → e.Like L e' → Stmt.Like (.print t e) (.print t' e')
  | var {t t' x x' e e'} : L.span t t' → L.Ident x x' → Option.Rel (Expr.Like L) e e' →
    Stmt.Like (.var t x e) (.var t' x' e')
  | block {t t' b b'} : L.span t t' → List.Forall₂ Stmt.Like b b' →
      Stmt.Like (.block t b) (.block t' b')
  | ifElse {t t' c c' s s' n n'} : L.span t t' → c.Like L c' → Stmt.Like s s' →
      Option.Rel Stmt.Like n n' →
    Stmt.Like (.ifElse t c s n) (.ifElse t' c' s' n')
  | whileLoop {t t' c c' s s'} : L.span t t' → c.Like L c' → Stmt.Like s s' →
    Stmt.Like (.whileLoop t c s) (.whileLoop t' c' s')
  | function {d d'} : FunctionDecl.Like d d' → Stmt.Like (.function d) (.function d')
  | classDecl {t t' x x' p p' ms ms'} : L.span t t' → L.Ident x x' → Option.Rel L.Superclass p p' →
    List.Forall₂ FunctionDecl.Like ms ms' →
    Stmt.Like (.classDecl t x p ms) (.classDecl t' x' p' ms')
  | returning {t t' k k' e e'} : L.span t t' → L.span k k' → Option.Rel (Expr.Like L) e e' →
    Stmt.Like (.returning t k e) (.returning t' k' e')

inductive FunctionDecl.Like : FunctionDecl → FunctionDecl → Prop where
  | mk {x x' ps ps' b b' t t'} : L.Ident x x' → List.Forall₂ L.Ident ps ps' →
      List.Forall₂ Stmt.Like b b' →
    L.span t t' → FunctionDecl.Like (.mk x ps b t) (.mk x' ps' b' t')

end

section

variable {L}

namespace FunctionDecl.Like

variable {d d' : FunctionDecl}

theorem name (h : d.Like L d') : L.Ident d.name d'.name := by
  cases h with
  | mk hx => exact hx

theorem parameters (h : d.Like L d') : List.Forall₂ L.Ident d.parameters d'.parameters := by
  cases h with
  | mk _ hps => exact hps

theorem body (h : d.Like L d') : List.Forall₂ (Stmt.Like L) d.body d'.body := by
  cases h with
  | mk _ _ hb => exact hb

end FunctionDecl.Like

/-! ### A program is like itself -/

/-- The expression that is looked at, if it is one, has a number below `n`. -/
def Sight.Below (n : Nat) (v : Sight) : Prop := ∀ i, v.id? = some i → i < n

theorem Sight.Below.mono {n m : Nat} {v : Sight} (h : v.Below n) (hn : n ≤ m) : v.Below m :=
  fun i hi => Nat.lt_of_lt_of_le (h i hi) hn

/-- Whether all numbers in a piece of a program are related to themselves. -/
def Likeness.Fixes (L : Likeness) (l : List Sight) : Prop := ∀ v ∈ l, ∀ i, v.id? = some i → L.id i i

namespace Likeness

theorem Fixes.subset {l m : List Sight} (h : L.Fixes l) (hm : ∀ v ∈ m, v ∈ l) : L.Fixes m :=
  fun v hv => h v (hm v hv)

theorem Fixes.site {l : List Sight} (h : L.Fixes l) (hs : ∀ t, L.span t t) {e : Expr}
    (he : Sight.expr e ∈ l) : L.Site e.site e.site := ⟨h _ he _ rfl, hs _⟩

theorem ident_refl (hs : ∀ t, L.span t t) (x : Lox.Ident) : L.Ident x x := ⟨rfl, hs _⟩

end Likeness

mutual

theorem Expr.like_refl (hs : ∀ t, L.span t t) : (e : Expr) → L.Fixes e.sights → e.Like L e
  | .literal s l, h => .literal (h.site hs (e := .literal s l) (by simp [Expr.sights, Expr.nodes]))
  | .grouping s e, h =>
    .grouping (h.site hs (e := .grouping s e) (by simp [Expr.sights, Expr.nodes]))
      (e.like_refl hs (h.subset (by simp +contextual [Expr.sights, Expr.nodes])))
  | .unary s op t e, h =>
    .unary (h.site hs (e := .unary s op t e) (by simp [Expr.sights, Expr.nodes])) (hs t)
      (e.like_refl hs (h.subset (by simp +contextual [Expr.sights, Expr.nodes])))
  | .binary s l op t r, h =>
    .binary (h.site hs (e := .binary s l op t r) (by simp [Expr.sights, Expr.nodes]))
      (l.like_refl hs (h.subset (by simp +contextual [Expr.sights, Expr.nodes]))) (hs t)
      (r.like_refl hs (h.subset (by simp +contextual [Expr.sights, Expr.nodes])))
  | .logical s l op r, h =>
    .logical (h.site hs (e := .logical s l op r) (by simp [Expr.sights, Expr.nodes]))
      (l.like_refl hs (h.subset (by simp +contextual [Expr.sights, Expr.nodes])))
      (r.like_refl hs (h.subset (by simp +contextual [Expr.sights, Expr.nodes])))
  | .var s x, h =>
    .var (h.site hs (e := .var s x) (by simp [Expr.sights, Expr.nodes])) (L.ident_refl hs x)
  | .assign s x e, h =>
    .assign (h.site hs (e := .assign s x e) (by simp [Expr.sights, Expr.nodes])) (L.ident_refl hs x)
      (e.like_refl hs (h.subset (by simp +contextual [Expr.sights, Expr.nodes])))
  | .call s f t es, h =>
    .call (h.site hs (e := .call s f t es) (by simp [Expr.sights, Expr.nodes]))
      (f.like_refl hs (h.subset (by simp +contextual [Expr.sights, Expr.nodes]))) (hs t)
      (Expr.forall₂_like_refl hs es
        (h.subset (by simp +contextual [Expr.sights, Expr.sightsAll, Expr.nodes])))
  | .get s e x, h =>
    .get (h.site hs (e := .get s e x) (by simp [Expr.sights, Expr.nodes]))
      (e.like_refl hs (h.subset (by simp +contextual [Expr.sights, Expr.nodes])))
        (L.ident_refl hs x)
  | .set s e x v, h =>
    .set (h.site hs (e := .set s e x v) (by simp [Expr.sights, Expr.nodes]))
      (e.like_refl hs (h.subset (by simp +contextual [Expr.sights, Expr.nodes])))
        (L.ident_refl hs x)
      (v.like_refl hs (h.subset (by simp +contextual [Expr.sights, Expr.nodes])))
  | .this s, h => .this (h.site hs (e := .this s) (by simp [Expr.sights, Expr.nodes]))
  | .super s x, h =>
    .super (h.site hs (e := .super s x) (by simp [Expr.sights, Expr.nodes])) (L.ident_refl hs x)

theorem Expr.forall₂_like_refl (hs : ∀ t, L.span t t) :
    (es : List Expr) → L.Fixes (Expr.sightsAll es) →
    List.Forall₂ (Expr.Like L) es es
  | [], _ => .nil
  | e :: es, h =>
    .cons (e.like_refl hs
      (h.subset (by simp +contextual [Expr.sights, Expr.sightsAll, Expr.nodesAll])))
      (Expr.forall₂_like_refl hs es
        (h.subset (by simp +contextual [Expr.sightsAll, Expr.nodesAll])))

end

mutual

theorem Stmt.like_refl (hs : ∀ t, L.span t t) : (s : Stmt) → L.Fixes s.sights → s.Like L s
  | .expr t e, h => .expr (hs t) (e.like_refl hs h)
  | .print t e, h => .print (hs t) (e.like_refl hs (h.subset (by simp +contextual [Stmt.sights])))
  | .var t x none, _ => .var (hs t) (L.ident_refl hs x) .none
  | .var t x (some e), h =>
    .var (hs t) (L.ident_refl hs x)
      (.some (e.like_refl hs (h.subset (by simp +contextual [Stmt.sights]))))
  | .block t b, h => .block (hs t) (Stmt.forall₂_like_refl hs b h)
  | .ifElse t c s none, h =>
    .ifElse (hs t) (c.like_refl hs (h.subset (by simp +contextual [Stmt.sights])))
      (s.like_refl hs (h.subset (by simp +contextual [Stmt.sights]))) .none
  | .ifElse t c s (some n), h =>
    .ifElse (hs t) (c.like_refl hs (h.subset (by simp +contextual [Stmt.sights])))
      (s.like_refl hs (h.subset (by simp +contextual [Stmt.sights])))
      (.some (n.like_refl hs (h.subset (by simp +contextual [Stmt.sights]))))
  | .whileLoop t c s, h =>
    .whileLoop (hs t) (c.like_refl hs (h.subset (by simp +contextual [Stmt.sights])))
      (s.like_refl hs (h.subset (by simp +contextual [Stmt.sights])))
  | .function d, h => .function (d.like_refl hs (h.subset (by simp +contextual [Stmt.sights])))
  | .classDecl t x none ms, h =>
    .classDecl (hs t) (L.ident_refl hs x) .none
      (FunctionDecl.forall₂_like_refl hs ms (h.subset (by simp +contextual [Stmt.sights])))
  | .classDecl t x (some p) ms, h =>
    .classDecl (hs t) (L.ident_refl hs x)
      (.some ⟨h.site hs (e := p.node) (by simp [Stmt.sights, Superclass.sights]),
        L.ident_refl hs p.name⟩)
      (FunctionDecl.forall₂_like_refl hs ms (h.subset (by simp +contextual [Stmt.sights])))
  | .returning t k none, _ => .returning (hs t) (hs k) .none
  | .returning t k (some e), h =>
    .returning (hs t) (hs k) (.some (e.like_refl hs (h.subset (by simp +contextual [Stmt.sights]))))

theorem Stmt.forall₂_like_refl (hs : ∀ t, L.span t t) :
    (ss : List Stmt) → L.Fixes (Stmt.sightsAll ss) →
    List.Forall₂ (Stmt.Like L) ss ss
  | [], _ => .nil
  | s :: ss, h =>
    .cons (s.like_refl hs (h.subset (by simp +contextual [Stmt.sightsAll])))
      (Stmt.forall₂_like_refl hs ss (h.subset (by simp +contextual [Stmt.sightsAll])))

theorem FunctionDecl.like_refl (hs : ∀ t, L.span t t) :
    (d : FunctionDecl) → L.Fixes d.sights → d.Like L d
  | .mk x ps b t, h =>
    .mk (L.ident_refl hs x) (List.forall₂_same.mpr fun y _ => L.ident_refl hs y)
      (Stmt.forall₂_like_refl hs b (h.subset (by simp +contextual [FunctionDecl.sights]))) (hs t)

theorem FunctionDecl.forall₂_like_refl (hs : ∀ t, L.span t t) : (ds : List FunctionDecl) →
    L.Fixes (FunctionDecl.sightsAll ds) → List.Forall₂ (FunctionDecl.Like L) ds ds
  | [], _ => .nil
  | d :: ds, h =>
    .cons (d.like_refl hs (h.subset (by simp +contextual [FunctionDecl.sightsAll])))
      (FunctionDecl.forall₂_like_refl hs ds
        (h.subset (by simp +contextual [FunctionDecl.sightsAll])))

end

end

/-! ### Nothing differs -/

/-- Neither spans nor numbers differ. -/
structure Likeness.Exact (L : Likeness) : Prop where
  span : ∀ {t t'}, L.span t t' → t' = t
  id : ∀ {i i'}, L.id i i' → i' = i

theorem Likeness.exact_same : same.Exact := ⟨Eq.symm, Eq.symm⟩

namespace Likeness

theorem eq_of_located {L : Likeness} (hL : ∀ {t t'}, L.span t t' → t' = t) {α : Type}
    {e e' : Lox.Located α} (h : L.Located e e') : e' = e := by
  obtain ⟨a, t⟩ := e
  obtain ⟨a', t'⟩ := e'
  have ha : a' = a := h.item
  have ht : t' = t := hL h.span
  rw [ha, ht]

section

variable {L} (hL : L.Exact)

include hL

theorem eq_of_site {s s' : Lox.Site} (h : L.Site s s') : s' = s := by
  obtain ⟨i, t⟩ := s
  obtain ⟨i', t'⟩ := s'
  have hi : i' = i := hL.id h.id
  have ht : t' = t := hL.span h.span
  rw [hi, ht]

theorem eq_of_ident {x x' : Lox.Ident} (h : L.Ident x x') : x' = x := by
  obtain ⟨y, t⟩ := x
  obtain ⟨y', t'⟩ := x'
  have hy : y' = y := h.name
  have ht : t' = t := hL.span h.span
  rw [hy, ht]

private theorem eq_of_superclass {p p' : Lox.Superclass} (h : L.Superclass p p') : p' = p := by
  obtain ⟨s, x⟩ := p
  obtain ⟨s', x'⟩ := p'
  have hs : s' = s := eq_of_site hL h.site
  have hx : x' = x := eq_of_ident hL h.name
  rw [hs, hx]

end

theorem eq_of_forall₂ {α : Type} {R : α → α → Prop} (hR : ∀ a b, R a b → b = a) {l l' : List α}
    (h : List.Forall₂ R l l') : l' = l := by
  induction h with
  | nil => rfl
  | cons h _ ih => rw [hR _ _ h, ih]

end Likeness

open Likeness

section

variable {L}

mutual

theorem Expr.eq_of_like (hL : L.Exact) : (e e' : Expr) → e.Like L e' → e' = e
  | .literal _ _, _, .literal hs => by rw [eq_of_site hL hs]
  | .grouping _ e, _, .grouping hs he => by rw [eq_of_site hL hs, e.eq_of_like hL _ he]
  | .unary _ _ _ e, _, .unary hs ht he => by rw [eq_of_site hL hs, hL.span ht, e.eq_of_like hL _ he]
  | .binary _ l _ _ r, _, .binary hs hl ht hr => by
    rw [eq_of_site hL hs, l.eq_of_like hL _ hl, hL.span ht, r.eq_of_like hL _ hr]
  | .logical _ l _ r, _, .logical hs hl hr => by
    rw [eq_of_site hL hs, l.eq_of_like hL _ hl, r.eq_of_like hL _ hr]
  | .var _ _, _, .var hs hx => by rw [eq_of_site hL hs, eq_of_ident hL hx]
  | .assign _ _ e, _, .assign hs hx he => by
    rw [eq_of_site hL hs, eq_of_ident hL hx, e.eq_of_like hL _ he]
  | .call _ f _ es, _, .call hs hf ht hes => by
    rw [eq_of_site hL hs, f.eq_of_like hL _ hf, hL.span ht, Expr.eq_of_forall₂_like hL es _ hes]
  | .get _ e _, _, .get hs he hx => by
    rw [eq_of_site hL hs, eq_of_ident hL hx, e.eq_of_like hL _ he]
  | .set _ e _ v, _, .set hs he hx hv => by
    rw [eq_of_site hL hs, eq_of_ident hL hx, e.eq_of_like hL _ he, v.eq_of_like hL _ hv]
  | .this _, _, .this hs => by rw [eq_of_site hL hs]
  | .super _ _, _, .super hs hx => by rw [eq_of_site hL hs, eq_of_ident hL hx]

theorem Expr.eq_of_forall₂_like (hL : L.Exact) : (es es' : List Expr) →
    List.Forall₂ (Expr.Like L) es es' → es' = es
  | [], _, .nil => rfl
  | e :: es, _, .cons he hes => by rw [e.eq_of_like hL _ he, Expr.eq_of_forall₂_like hL es _ hes]

end

mutual

theorem Stmt.eq_of_like (hL : L.Exact) : (s s' : Stmt) → s.Like L s' → s' = s
  | .expr _ e, _, .expr ht he => by rw [hL.span ht, e.eq_of_like hL _ he]
  | .print _ e, _, .print ht he => by rw [hL.span ht, e.eq_of_like hL _ he]
  | .var _ _ none, _, .var ht hx .none => by rw [hL.span ht, eq_of_ident hL hx]
  | .var _ _ (some e), _, .var ht hx (.some he) => by
    rw [hL.span ht, eq_of_ident hL hx, e.eq_of_like hL _ he]
  | .block _ b, _, .block ht hb => by rw [hL.span ht, Stmt.eq_of_forall₂_like hL b _ hb]
  | .ifElse _ c s none, _, .ifElse ht hc hs .none => by
    rw [hL.span ht, c.eq_of_like hL _ hc, s.eq_of_like hL _ hs]
  | .ifElse _ c s (some n), _, .ifElse ht hc hs (.some hn) => by
    rw [hL.span ht, c.eq_of_like hL _ hc, s.eq_of_like hL _ hs, n.eq_of_like hL _ hn]
  | .whileLoop _ c s, _, .whileLoop ht hc hs => by
    rw [hL.span ht, c.eq_of_like hL _ hc, s.eq_of_like hL _ hs]
  | .function d, _, .function hd => by rw [d.eq_of_like hL _ hd]
  | .classDecl _ _ none ms, _, .classDecl ht hx .none hm => by
    rw [hL.span ht, eq_of_ident hL hx, FunctionDecl.eq_of_forall₂_like hL ms _ hm]
  | .classDecl _ _ (some _) ms, _, .classDecl ht hx (.some hp) hm => by
    rw [hL.span ht, eq_of_ident hL hx, eq_of_superclass hL hp,
      FunctionDecl.eq_of_forall₂_like hL ms _ hm]
  | .returning _ _ none, _, .returning ht hk .none => by rw [hL.span ht, hL.span hk]
  | .returning _ _ (some e), _, .returning ht hk (.some he) => by
    rw [hL.span ht, hL.span hk, e.eq_of_like hL _ he]

theorem Stmt.eq_of_forall₂_like (hL : L.Exact) : (ss ss' : List Stmt) →
    List.Forall₂ (Stmt.Like L) ss ss' → ss' = ss
  | [], _, .nil => rfl
  | s :: ss, _, .cons hs hss => by rw [s.eq_of_like hL _ hs, Stmt.eq_of_forall₂_like hL ss _ hss]

theorem FunctionDecl.eq_of_like (hL : L.Exact) : (d d' : FunctionDecl) → d.Like L d' → d' = d
  | .mk _ _ b _, _, .mk hx hps hb ht => by
    rw [eq_of_ident hL hx, eq_of_forall₂ (fun _ _ => eq_of_ident hL) hps,
      Stmt.eq_of_forall₂_like hL b _ hb, hL.span ht]

theorem FunctionDecl.eq_of_forall₂_like (hL : L.Exact) : (ds ds' : List FunctionDecl) →
    List.Forall₂ (FunctionDecl.Like L) ds ds' → ds' = ds
  | [], _, .nil => rfl
  | d :: ds, _, .cons hd hds => by
    rw [d.eq_of_like hL _ hd, FunctionDecl.eq_of_forall₂_like hL ds _ hds]

end

end

end Lox
