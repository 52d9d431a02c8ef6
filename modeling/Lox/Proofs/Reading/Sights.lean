import Lox.Proofs.Scoping.Effect
/-!
# What stands in a program

The walk that resolves names sees the same things in a program whatever its state is. Reading from
tokens makes sure of four facts about them: they are proper, every expression has a number of its
own, which is greater than those of the expressions in it, and what an error can be reported at
starts where a token starts.
-/

namespace Lox

/-! ### The sights of a program -/

/-- The expressions that an expression is made of, in the order in which they are resolved. -/
def Expr.operands : Expr → List Expr
  | .literal _ _ | .var _ _ | .this _ | .super _ _ => []
  | .grouping _ e | .unary _ _ _ e | .assign _ _ e | .get _ e _ => [e]
  | .binary _ l _ _ r | .logical _ l _ r => [l, r]
  | .call _ f _ es => f :: es
  | .set _ e _ v => [v, e]

private theorem Expr.nodes_eq (e : Expr) : e.nodes = Expr.nodesAll e.operands ++ [e] := by
  cases e <;> simp [nodes, operands, nodesAll]

def Expr.sights (e : Expr) : List Sight := e.nodes.map .expr

def Expr.sightsAll (es : List Expr) : List Sight := (Expr.nodesAll es).map .expr

@[simp] theorem Expr.sightsAll_nil : Expr.sightsAll [] = [] := rfl

@[simp] theorem Expr.sightsAll_cons (e : Expr) (es : List Expr) :
    Expr.sightsAll (e :: es) = e.sights ++ Expr.sightsAll es := List.map_append

theorem Expr.sights_eq (e : Expr) : e.sights = Expr.sightsAll e.operands ++ [.expr e] := by
  rw [sights, e.nodes_eq, List.map_append]
  rfl

def Superclass.sights (p : Superclass) (x : Ident) : List Sight := [.inheritance x p, .expr p.node]

mutual

def Stmt.sights : Stmt → List Sight
  | .expr _ e => e.sights
  | .print t e => e.sights ++ [.print t]
  | .var _ x none => [.declaration x]
  | .var _ x (some e) => .declaration x :: e.sights
  | .block _ b => Stmt.sightsAll b
  | .ifElse _ c s none => c.sights ++ .branch s :: s.sights
  | .ifElse _ c s (some t) => c.sights ++ .branch s :: s.sights ++ .branch t :: t.sights
  | .whileLoop _ c s => c.sights ++ .branch s :: s.sights
  | .function d => .declaration d.name :: d.sights
  | .classDecl _ x none ms => .declaration x :: FunctionDecl.sightsAll ms
  | .classDecl _ x (some p) ms => .declaration x :: p.sights x ++ FunctionDecl.sightsAll ms
  | .returning _ k none => [.returning k false]
  | .returning _ k (some e) => .returning k true :: e.sights

def Stmt.sightsAll : List Stmt → List Sight
  | [] => []
  | s :: ss => s.sights ++ Stmt.sightsAll ss

def FunctionDecl.sights : FunctionDecl → List Sight
  | .mk _ ps b _ => ps.map .declaration ++ Stmt.sightsAll b

def FunctionDecl.sightsAll : List FunctionDecl → List Sight
  | [] => []
  | d :: ds => d.sights ++ FunctionDecl.sightsAll ds

end

theorem Expr.map_sight_visits (w : Walk) (e : Expr) : (e.visits w).map Visit.sight = e.sights := by
  simp [Expr.visits, Expr.sights]

theorem Walk.map_sight_parameterVisits (w : Walk) (ps : List Ident) :
    (w.parameterVisits ps).map Visit.sight = ps.map .declaration := by
  induction ps generalizing w with
  | nil => rfl
  | cons p ps ih => rw [parameterVisits, List.map_cons, ih, List.map_cons]

mutual

theorem Stmt.map_sight_visits (w : Walk) : (s : Stmt) → (s.visits w).map Visit.sight = s.sights
  | .expr _ e => e.map_sight_visits w
  | .print t e => by simp [Stmt.visits, Stmt.sights, e.map_sight_visits]
  | .var _ x none => rfl
  | .var _ x (some e) => by simp [Stmt.visits, Stmt.sights, e.map_sight_visits]
  | .block _ b => Stmt.map_sight_visitsAll w.openScope b
  | .ifElse _ c s none => by
    simp [Stmt.visits, Stmt.sights, c.map_sight_visits, s.map_sight_visits]
  | .ifElse _ c s (some t) => by
    simp [Stmt.visits, Stmt.sights, c.map_sight_visits, s.map_sight_visits, t.map_sight_visits]
  | .whileLoop _ c s => by simp [Stmt.visits, Stmt.sights, c.map_sight_visits, s.map_sight_visits]
  | .function d => by simp [Stmt.visits, Stmt.sights, d.map_sight_visits]
  | .classDecl _ x none ms => by
    simp [Stmt.visits, Stmt.sights, Walk.classVisits, FunctionDecl.map_sight_visitsMethods]
  | .classDecl _ x (some p) ms => by
    simp [Stmt.visits, Stmt.sights, Walk.classVisits, Superclass.sights,
      FunctionDecl.map_sight_visitsMethods]
  | .returning _ k none => rfl
  | .returning _ k (some e) => by simp [Stmt.visits, Stmt.sights, e.map_sight_visits]

theorem Stmt.map_sight_visitsAll (w : Walk) :
    (ss : List Stmt) → (Stmt.visitsAll w ss).map Visit.sight = Stmt.sightsAll ss
  | [] => rfl
  | s :: ss => by
    rw [Stmt.visitsAll, List.map_append, s.map_sight_visits, Stmt.map_sight_visitsAll _ ss,
      Stmt.sightsAll]

theorem FunctionDecl.map_sight_visits (w : Walk) :
    (d : FunctionDecl) → (kind : FunctionKind) → (d.visits w kind).map Visit.sight = d.sights
  | .mk _ ps b _, kind => by
    rw [FunctionDecl.visits, List.map_append, Walk.map_sight_parameterVisits,
      Stmt.map_sight_visitsAll _ b, FunctionDecl.sights]

theorem FunctionDecl.map_sight_visitsMethods (w : Walk) :
    (ds : List FunctionDecl) →
    (FunctionDecl.visitsMethods w ds).map Visit.sight = FunctionDecl.sightsAll ds
  | [] => rfl
  | d :: ds => by
    rw [FunctionDecl.visitsMethods, List.map_append, d.map_sight_visits,
      FunctionDecl.map_sight_visitsMethods _ ds, FunctionDecl.sightsAll]

end

/-! ### Sights that were read from tokens -/

/-- The spans at which something can be reported, now or when the program runs. -/
def Sight.spans : Sight → List Span
  | .expr (.unary _ _ t _) | .expr (.binary _ _ _ t _) | .expr (.call _ _ t _) => [t]
  | .expr (.assign _ x _) | .expr (.get _ _ x) | .expr (.set _ _ x _) => [x.span]
  | .expr (.var s x) | .expr (.super s x) => [s.span, x.span]
  | .expr (.this s) => [s.span]
  | .expr _ => []
  | .print t => [t]
  | .declaration x => [x.span]
  | .inheritance _ p => [p.name.span]
  | .branch _ => []
  | .returning k _ => [k]

/-- The number of an expression is greater than those of the expressions in it. -/
def Expr.NumberedLast (e : Expr) : Prop := ∀ i ∈ Expr.nodesAll e.operands, i.site.id < e.site.id

/-- What reading makes sure of: the spans start at positions in `P`, the names are in `N`, and the
numbers of the expressions are different, run from `lo` up to `hi`, and get greater outward. -/
structure Fit (P : Position → Prop) (N : String → Prop) (lo hi : Nat) (l : List Sight) : Prop where
  le : lo ≤ hi
  proper : ∀ v ∈ l, v.Named N
  start : ∀ v ∈ l, ∀ s ∈ v.spans, P s.first
  nodup : (l.filterMap Sight.id?).Nodup
  range : ∀ i ∈ l.filterMap Sight.id?, lo ≤ i ∧ i < hi
  last : ∀ e, Sight.expr e ∈ l → e.NumberedLast

namespace Fit

variable {P : Position → Prop} {N : String → Prop} {lo mid hi : Nat} {l m : List Sight} {v : Sight}

theorem nil (h : lo ≤ hi) : Fit P N lo hi [] := by
  constructor <;> simp [h]

/-- An expression that gets the next number. -/
theorem node {e : Expr} (hp : (Sight.expr e).Named N) (hs : ∀ s ∈ (Sight.expr e).spans, P s.first)
    (hc : e.NumberedLast) : Fit P N e.site.id (e.site.id + 1) [.expr e] := by
  constructor <;> simp_all [Sight.id?]

/-- Something that has no number. -/
theorem other (hv : v.id? = none) (hp : v.Named N) (hs : ∀ s ∈ v.spans, P s.first) (h : lo ≤ hi) :
    Fit P N lo hi [v] := by
  constructor
  case last =>
    intro e he
    obtain rfl := List.mem_singleton.mp he
    cases hv
  all_goals simp_all

theorem append (hl : Fit P N lo mid l) (hm : Fit P N mid hi m) : Fit P N lo hi (l ++ m) where
  le := Nat.le_trans hl.le hm.le
  proper v hv := (List.mem_append.mp hv).elim (hl.proper v) (hm.proper v)
  start v hv := (List.mem_append.mp hv).elim (hl.start v) (hm.start v)
  nodup := by
    rw [List.filterMap_append, List.nodup_append]
    refine ⟨hl.nodup, hm.nodup, fun i hi j hj => ?_⟩
    have h₁ := (hl.range i hi).2
    have h₂ := (hm.range j hj).1
    omega
  range i hi := by
    rw [List.filterMap_append, List.mem_append] at hi
    rcases hi with hi | hi
    · have h₁ := hl.range i hi
      have h₂ := hm.le
      omega
    · have h₁ := hm.range i hi
      have h₂ := hl.le
      omega
  last e he := (List.mem_append.mp he).elim (hl.last e) (hm.last e)

theorem perm (hl : Fit P N lo hi l) (h : l.Perm m) : Fit P N lo hi m where
  le := hl.le
  proper v hv := hl.proper v (h.mem_iff.mpr hv)
  start v hv := hl.start v (h.mem_iff.mpr hv)
  nodup := (h.filterMap Sight.id?).nodup_iff.mp hl.nodup
  range i hi := hl.range i ((h.filterMap Sight.id?).mem_iff.mpr hi)
  last e he := hl.last e (h.mem_iff.mpr he)

theorem sublist (hl : Fit P N lo hi l) (h : m.Sublist l) : Fit P N lo hi m where
  le := hl.le
  proper v hv := hl.proper v (h.mem hv)
  start v hv := hl.start v (h.mem hv)
  nodup := hl.nodup.sublist (h.filterMap Sight.id?)
  range i hi := hl.range i ((h.filterMap Sight.id?).mem hi)
  last e he := hl.last e (h.mem he)

end Fit

end Lox
