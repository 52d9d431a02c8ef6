import Lox.Proofs.Likeness.Syntax
import Lox.Proofs.Scoping.Agreement
/-!
# Code lifted out of a scope

One and the same code can stand inside a scope that holds nothing, or without it. Its variables are
then found at distances that differ by one where they lead out of that scope, and are the same
elsewhere. So the walk that resolves names gives the two pieces of code distances that belong
together, whatever the numbers of their expressions are.
-/

namespace Lox

/-- Where code stands: outside of the extra scope, or so many scopes inside of it. -/
inductive Setting where
  | outside
  | inside (depth : Nat)

namespace Setting

/-- The setting of code that stands in a scope more. -/
def deeper : Setting → Setting
  | outside => outside
  | inside k => inside (k + 1)

/-- The setting of the scope around, in code that does not stand in the extra scope itself. -/
def outward : Setting → Setting
  | inside (k + 1) => inside k
  | _ => outside

@[simp] theorem outward_deeper (p : Setting) : p.deeper.outward = p := by
  cases p <;> rfl

theorem outside_ne : outside ≠ inside 0 := nofun

@[simp] theorem deeper_ne (p : Setting) : p.deeper ≠ inside 0 := by
  cases p <;> nofun

/-- The distances to one scope, with the extra scope and without it. -/
inductive Links : Setting → Nat → Nat → Prop where
  | outside (d : Nat) : Links outside d d
  | past (d : Nat) : Links (inside 0) (d + 1) d
  | here (k : Nat) : Links (inside (k + 1)) 0 0
  | step {k d d' : Nat} : Links (inside k) d d' → Links (inside (k + 1)) (d + 1) (d' + 1)

/-- A scope further out is a scope further out on both sides. -/
theorem Links.succ {p : Setting} {d d' e : Nat} (h : p.Links d d') (he : p.Links (d + 1) e) :
    e = d' + 1 := by
  induction h generalizing e with
  | outside d | past d =>
    cases he
    rfl
  | here k =>
    cases he with
    | step he =>
      cases he
      rfl
  | step _ ih =>
    cases he with
    | step he => rw [ih he]

/-- The distances of `super`, which goes with the `this` one scope further in. -/
inductive LinksParent (p : Setting) : Option Nat → Option Nat → Prop where
  | none : LinksParent p none none
  | here : p.Links 0 0 → LinksParent p (some 0) (some 0)
  | outer {d d' : Nat} : p.Links d d' → p.Links (d + 1) (d' + 1) →
      LinksParent p (some (d + 1)) (some (d' + 1))

end Setting

/-! ### Code and its copy -/

section

variable (D : Distances) (p : Setting)

/-- Where `D` has distances for two expressions that name the same variable. -/
structure Site.Lifted (s s' : Site) : Prop where
  span : s'.span = s.span
  links : Option.Rel p.Links (D.get? s.id) (D.get? s'.id)

structure Site.LiftedParent (s s' : Site) : Prop where
  span : s'.span = s.span
  links : p.LinksParent (D.get? s.id) (D.get? s'.id)

inductive Expr.Lifted : Expr → Expr → Prop where
  | literal {s s' l} : Lifted (.literal s l) (.literal s' l)
  | grouping {s s' e e'} : Lifted e e' → Lifted (.grouping s e) (.grouping s' e')
  | unary {s s' op t e e'} : Lifted e e' → Lifted (.unary s op t e) (.unary s' op t e')
  | binary {s s' l l' op t r r'} : Lifted l l' → Lifted r r' →
      Lifted (.binary s l op t r) (.binary s' l' op t r')
  | logical {s s' l l' op r r'} : Lifted l l' → Lifted r r' →
      Lifted (.logical s l op r) (.logical s' l' op r')
  | var {s s' x} : s.Lifted D p s' → Lifted (.var s x) (.var s' x)
  | assign {s s' x e e'} : s.Lifted D p s' → Lifted e e' → Lifted (.assign s x e) (.assign s' x e')
  | call {s s' f f' t es es'} : Lifted f f' → List.Forall₂ Lifted es es' →
    Lifted (.call s f t es) (.call s' f' t es')
  | get {s s' e e' x} : Lifted e e' → Lifted (.get s e x) (.get s' e' x)
  | set {s s' e e' x v v'} : Lifted e e' → Lifted v v' → Lifted (.set s e x v) (.set s' e' x v')
  | this {s s'} : s.Lifted D p s' → Lifted (.this s) (.this s')
  | super {s s' x} : s.LiftedParent D p s' → Lifted (.super s x) (.super s' x)

structure Superclass.Lifted (c c' : Superclass) : Prop where
  site : c.site.Lifted D p c'.site
  name : c'.name = c.name

end

mutual

/-- Statements in a setting and their copies without the extra scope, when the
distances are in `D`. -/
inductive Stmt.Lifted (D : Distances) : Setting → Stmt → Stmt → Prop where
  | expr {p t e e'} : e.Lifted D p e' → Stmt.Lifted D p (.expr t e) (.expr t e')
  | print {p t e e'} : e.Lifted D p e' → Stmt.Lifted D p (.print t e) (.print t e')
  | var {p t x e e'} : p ≠ .inside 0 → Option.Rel (Expr.Lifted D p) e e' →
    Stmt.Lifted D p (.var t x e) (.var t x e')
  | block {p t b b'} : Stmt.LiftedAll D p.deeper b b' → Stmt.Lifted D p (.block t b) (.block t b')
  | ifThen {p t c c' s s'} : c.Lifted D p c' → Stmt.Lifted D p s s' →
    Stmt.Lifted D p (.ifElse t c s none) (.ifElse t c' s' none)
  | ifElse {p t c c' s s' n n'} : c.Lifted D p c' → Stmt.Lifted D p s s' → Stmt.Lifted D p n n' →
    Stmt.Lifted D p (.ifElse t c s (some n)) (.ifElse t c' s' (some n'))
  | whileLoop {p t c c' s s'} : c.Lifted D p c' → Stmt.Lifted D p s s' →
    Stmt.Lifted D p (.whileLoop t c s) (.whileLoop t c' s')
  | function {p d d'} : p ≠ .inside 0 → FunctionDecl.Lifted D p d d' →
      Stmt.Lifted D p (.function d) (.function d')
  /-- The methods of a class stand in the scope that holds `this`. -/
  | plainClass {p t x ms ms'} : p ≠ .inside 0 → FunctionDecl.LiftedAll D p.deeper ms ms' →
    Stmt.Lifted D p (.classDecl t x none ms) (.classDecl t x none ms')
  | subclass {p t x c c' ms ms'} : p ≠ .inside 0 → c.Lifted D p c' →
    FunctionDecl.LiftedAll D p.deeper.deeper ms ms' →
    Stmt.Lifted D p (.classDecl t x (some c) ms) (.classDecl t x (some c') ms')
  | returning {p t k e e'} : Option.Rel (Expr.Lifted D p) e e' →
    Stmt.Lifted D p (.returning t k e) (.returning t k e')

inductive Stmt.LiftedAll (D : Distances) : Setting → List Stmt → List Stmt → Prop where
  | nil {p} : Stmt.LiftedAll D p [] []
  | cons {p s s' ss ss'} : Stmt.Lifted D p s s' → Stmt.LiftedAll D p ss ss' →
    Stmt.LiftedAll D p (s :: ss) (s' :: ss')

inductive FunctionDecl.Lifted (D : Distances) : Setting → FunctionDecl → FunctionDecl → Prop where
  | mk {p x ps b b' t} : Stmt.LiftedAll D p.deeper b b' →
      FunctionDecl.Lifted D p (.mk x ps b t) (.mk x ps b' t)

inductive FunctionDecl.LiftedAll (D : Distances) :
    Setting → List FunctionDecl → List FunctionDecl → Prop where
  | nil {p} : FunctionDecl.LiftedAll D p [] []
  | cons {p d d' ds ds'} : FunctionDecl.Lifted D p d d' → FunctionDecl.LiftedAll D p ds ds' →
    FunctionDecl.LiftedAll D p (d :: ds) (d' :: ds')

end

/-! ### Code outside is its own copy -/

section

variable (D : Distances)

theorem Site.lifted_outside (s : Site) : s.Lifted D .outside s where
  span := rfl
  links := by
    cases D.get? s.id with
    | none => exact .none
    | some d => exact .some (.outside d)

private theorem Site.liftedParent_outside (s : Site) : s.LiftedParent D .outside s where
  span := rfl
  links := by
    cases D.get? s.id with
    | none => exact .none
    | some d =>
      cases d with
      | zero => exact .here (.outside 0)
      | succ d => exact .outer (.outside d) (.outside (d + 1))

mutual

theorem Expr.lifted_outside : (e : Expr) → e.Lifted D .outside e
  | .literal _ _ => .literal
  | .grouping _ e => .grouping e.lifted_outside
  | .unary _ _ _ e => .unary e.lifted_outside
  | .binary _ l _ _ r => .binary l.lifted_outside r.lifted_outside
  | .logical _ l _ r => .logical l.lifted_outside r.lifted_outside
  | .var s _ => .var (s.lifted_outside D)
  | .assign s _ e => .assign (s.lifted_outside D) e.lifted_outside
  | .call _ f _ es => .call f.lifted_outside (Expr.forall₂_lifted_outside es)
  | .get _ e _ => .get e.lifted_outside
  | .set _ e _ v => .set e.lifted_outside v.lifted_outside
  | .this s => .this (s.lifted_outside D)
  | .super s _ => .super (s.liftedParent_outside D)

theorem Expr.forall₂_lifted_outside : (es : List Expr) → List.Forall₂ (Expr.Lifted D .outside) es es
  | [] => .nil
  | e :: es => .cons e.lifted_outside (Expr.forall₂_lifted_outside es)

end

mutual

theorem Stmt.lifted_outside : (s : Stmt) → s.Lifted D .outside s
  | .expr _ e => .expr (e.lifted_outside D)
  | .print _ e => .print (e.lifted_outside D)
  | .var _ _ none => .var nofun .none
  | .var _ _ (some e) => .var nofun (.some (e.lifted_outside D))
  | .block _ b => .block (Stmt.liftedAll_outside b)
  | .ifElse _ c s none => .ifThen (c.lifted_outside D) s.lifted_outside
  | .ifElse _ c s (some n) => .ifElse (c.lifted_outside D) s.lifted_outside n.lifted_outside
  | .whileLoop _ c s => .whileLoop (c.lifted_outside D) s.lifted_outside
  | .function d => .function nofun d.lifted_outside
  | .classDecl _ _ none ms => .plainClass nofun (FunctionDecl.liftedAll_outside ms)
  | .classDecl _ _ (some c) ms =>
    .subclass nofun ⟨c.site.lifted_outside D, rfl⟩ (FunctionDecl.liftedAll_outside ms)
  | .returning _ _ none => .returning .none
  | .returning _ _ (some e) => .returning (.some (e.lifted_outside D))

theorem Stmt.liftedAll_outside : (ss : List Stmt) → Stmt.LiftedAll D .outside ss ss
  | [] => .nil
  | s :: ss => .cons s.lifted_outside (Stmt.liftedAll_outside ss)

theorem FunctionDecl.lifted_outside : (d : FunctionDecl) → d.Lifted D .outside d
  | .mk _ _ b _ => .mk (Stmt.liftedAll_outside b)

theorem FunctionDecl.liftedAll_outside :
    (ds : List FunctionDecl) → FunctionDecl.LiftedAll D .outside ds ds
  | [] => .nil
  | d :: ds => .cons d.lifted_outside (FunctionDecl.liftedAll_outside ds)

end

end

namespace FunctionDecl.Lifted

variable {D : Distances} {p : Setting} {d d' : FunctionDecl}

theorem name (h : d.Lifted D p d') : d'.name = d.name := by
  cases h
  rfl

theorem parameters (h : d.Lifted D p d') : d'.parameters = d.parameters := by
  cases h
  rfl

theorem body (h : d.Lifted D p d') : Stmt.LiftedAll D p.deeper d.body d'.body := by
  cases h with
  | mk hb => exact hb

end FunctionDecl.Lifted

end Lox
