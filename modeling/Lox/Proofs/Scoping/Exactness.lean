import Mathlib.Data.List.Forall2
import Lox.Proofs.Scoping.Agreement
import Lox.Proofs.Scoping.Surroundings
/-!
# The walk finds what the text says

The scopes that the walk has open at a place hold the names that stand around the place, so what it
records and reports there are the distance and the broken rule of the place. No visit is left out
and none is made twice, whatever errors there are: the walk closes all that it opens.
-/

namespace Lox

/-! ### Contexts and surroundings -/

/-- Whether the scope holds just the names `xs`, all of them as defined. -/
def Table.Lists (t : Table Bool) (xs : List String) : Prop :=
  ∀ x, t.find? x = if x ∈ xs then some true else none

theorem Table.Lists.contains_iff {t : Table Bool} {xs : List String} (h : t.Lists xs) (x : String) :
    t.contains x = true ↔ x ∈ xs := by
  rw [Table.contains, h x]
  split <;> simp [*]

theorem Table.lists_empty : (Table.empty : Table Bool).Lists [] := fun _ => rfl

theorem Table.Lists.insert {t : Table Bool} {xs : List String} (h : t.Lists xs) (y : String) :
    (t.insert y true).Lists (xs ++ [y]) := by
  intro x
  rw [find?_insert, h x]
  by_cases hxy : y = x
  · simp [hxy]
  · simp [hxy, Ne.symm hxy]

/-- The sort of function that is around a place. -/
def FunctionKind.ofAround : Option (Bool × String) → FunctionKind
  | .none => .none
  | some (false, _) => .function
  | some (true, x) => .ofMethod x

def ClassKind.ofAround : Option Bool → ClassKind
  | .none => .none
  | some false => .plain
  | some true => .subclass

namespace Surroundings

@[simp] theorem declare_nil (a : Surroundings) : a.declare [] = a := by
  unfold declare
  split <;> simp

private theorem declare_cons (a : Surroundings) (x : String) (xs : List String) :
    a.declare (x :: xs) = (a.declare [x]).declare xs := by
  cases a with
  | nil => rfl
  | cons l a =>
    cases l with
    | scope ys => simp [declare]
    | initial | function | cls => rfl

end Surroundings

namespace Context

/-- What a context shows of the surroundings of an expression. -/
structure Shows (c : Context) (a : Surroundings) : Prop where
  nearest : ∀ x d, c.nearest? x = some d ↔ a.Nearest x d
  undefined : ∀ x, c.isUndefined x = a.definesFirst x
  classKind : c.classKind = .ofAround a.class?

/-- The context of a statement in the surroundings `a`. -/
structure Reflects (c : Context) (a : Surroundings) : Prop where
  scopes : List.Forall₂ Table.Lists c.scopes a.scopes
  function : c.function = .ofAround a.function?
  classKind : c.classKind = .ofAround a.class?
  /-- A statement stands in the innermost scope itself. -/
  inScope : a = [] ∨ ∃ xs b, a = .scope xs :: b

variable {c : Context} {a : Surroundings}

theorem nearest?_iff {ss : List Scope} {k : FunctionKind} {l : ClassKind} {b : Surroundings}
    {x : String} (h : List.Forall₂ (fun t xs => t.contains x = true ↔ x ∈ xs) ss b.scopes)
    (d : Nat) : (⟨ss, k, l⟩ : Context).nearest? x = some d ↔ b.Nearest x d := by
  have hlist : ∀ {ss : List Scope} {xss : List (List String)},
      List.Forall₂ (fun t xs => t.contains x = true ↔ x ∈ xs) ss xss → ∀ d,
      (ss.findIdx? (·.contains x) = some d ↔
        (∃ xs, xss[d]? = some xs ∧ x ∈ xs) ∧ ∀ e < d, ¬ ∃ xs, xss[e]? = some xs ∧ x ∈ xs) := by
    intro ss xss h
    induction h with
    | nil => simp
    | @cons t xs ss xss hx _ ih =>
      intro d
      rw [List.findIdx?_cons]
      cases d with
      | zero => by_cases hm : x ∈ xs <;> simp [hx, hm]
      | succ d =>
        by_cases hm : x ∈ xs
        · simp only [hx.mpr hm, if_true, Option.some.injEq, Nat.zero_ne_add_one, false_iff, not_and]
          exact fun _ hl => hl 0 (Nat.succ_pos d) ⟨xs, rfl, hm⟩
        · rw [if_neg (mt hx.mp hm), Option.map_eq_some_iff]
          simp only [Nat.add_right_cancel_iff, exists_eq_right, ih d, List.getElem?_cons_succ]
          refine and_congr_right fun _ => ⟨fun hl e he => ?_, fun hl e he => ?_⟩
          · cases e with
            | zero => simpa using hm
            | succ e => exact hl e (Nat.lt_of_succ_lt_succ he)
          · exact hl (e + 1) (Nat.succ_lt_succ he)
  exact (hlist h d).trans ⟨fun h => ⟨h.1, h.2⟩, fun h => ⟨h.holds, h.least⟩⟩

namespace Reflects

theorem start : Walk.start.context.Reflects [] := ⟨.nil, rfl, rfl, .inl rfl⟩

theorem isUndefined (h : c.Reflects a) (x : String) : c.isUndefined x = false := by
  obtain ⟨ss, k, l⟩ := c
  cases ss with
  | nil => rfl
  | cons t ss =>
    obtain ⟨xs, xss, ht, -, -⟩ := List.forall₂_cons_left_iff.mp h.scopes
    change (t.find? x == some false) = false
    rw [ht x]
    split <;> rfl

theorem holdsHere (h : c.Reflects a) (x : String) : c.holdsHere x = true ↔ x ∈ a.localNames := by
  obtain ⟨ss, k, l⟩ := c
  cases ss with
  | nil =>
    rw [Surroundings.localNames, List.forall₂_nil_left_iff.mp h.scopes]
    simp [Context.holdsHere]
  | cons t ss =>
    obtain ⟨xs, xss, ht, -, ha⟩ := List.forall₂_cons_left_iff.mp h.scopes
    rw [Surroundings.localNames, ha]
    exact ht.contains_iff x

theorem shows (h : c.Reflects a) : c.Shows a where
  nearest x d := nearest?_iff (h.scopes.imp fun _ _ ht => ht.contains_iff x) d
  undefined x := by
    rw [h.isUndefined]
    obtain rfl | ⟨xs, b, rfl⟩ := h.inScope <;> rfl
  classKind := h.classKind

/-! ### Names that are declared -/

theorem define (h : c.Reflects a) (x : String) : (c.define (some x)).Reflects (a.declare [x]) := by
  obtain ⟨ss, k, l⟩ := c
  obtain rfl | ⟨xs, b, rfl⟩ := h.inScope
  · obtain rfl : ss = [] := List.forall₂_nil_right_iff.mp h.scopes
    exact h
  · obtain ⟨t, ts, ht, hts, rfl⟩ := List.forall₂_cons_right_iff.mp h.scopes
    exact ⟨.cons (ht.insert x) hts, h.function, h.classKind, .inr ⟨_, b, rfl⟩⟩

theorem defineAll (h : c.Reflects a) (xs : List String) :
    (c.defineAll xs).Reflects (a.declare xs) := by
  induction xs generalizing c a with
  | nil =>
    rw [Context.defineAll_nil, Surroundings.declare_nil]
    exact h
  | cons x xs ih =>
    rw [Surroundings.declare_cons]
    exact ih (h.define x)

/-- The context of the initial value of a variable. -/
theorem shows_declare {w : Walk} (h : w.context.Reflects a) (x : Ident) :
    (w.declare x).context.Shows (.initial x.name :: a.declare [x.name]) := by
  obtain ⟨ss, k, l, d, es⟩ := w
  obtain rfl | ⟨xs, b, rfl⟩ := h.inScope
  · obtain rfl : ss = [] := List.forall₂_nil_right_iff.mp h.scopes
    refine ⟨fun y e => nearest?_iff .nil e, fun y => ?_, h.classKind⟩
    exact (Bool.and_false _).symm
  · obtain ⟨t, ts, ht, hts, rfl⟩ := List.forall₂_cons_right_iff.mp h.scopes
    -- The name is undefined in the scope only if the scope did not hold it.
    obtain ⟨u, hu, hc, hf⟩ : ∃ u : Scope, (Walk.declare ⟨t :: ts, k, l, d, es⟩ x).context =
      ⟨u :: ts, k, l⟩ ∧
        (∀ y, u.contains y = true ↔ y ∈ xs ++ [x.name]) ∧
        ∀ y, u.find? y = some false ↔ x.name = y ∧ x.name ∉ xs := by
      by_cases hx : x.name ∈ xs
      · refine ⟨t, ?_, fun y => ?_, fun y => ?_⟩
        · simp [Walk.declare, Walk.report, Walk.context, ht.contains_iff, hx]
        · rw [ht.contains_iff, List.mem_append, List.mem_singleton, or_iff_left_of_imp]
          rintro rfl
          exact hx
        · rw [ht y]
          split <;> simp [hx]
      · refine ⟨t.insert x.name false, ?_, fun y => ?_, fun y => ?_⟩
        · simp [Walk.declare, Walk.context, ht.contains_iff, hx]
        · rw [Table.contains, Table.find?_insert, ht y]
          by_cases hy : x.name = y
          · simp [hy]
          · simp [hy, Ne.symm hy]
        · rw [Table.find?_insert, ht y]
          by_cases hy : x.name = y
          · simp [← hy, hx]
          · simp [hy]
    rw [hu]
    refine ⟨fun y =>
      nearest?_iff (.cons (hc y) (hts.imp fun _ _ ht => ht.contains_iff y)), fun y => ?_,
      h.classKind⟩
    rw [Bool.eq_iff_iff]
    change (u.find? y == some false) = true ↔ (x.name == y && (xs ++ [x.name]).count y == 1) = true
    rw [beq_iff_eq, hf y, Bool.and_eq_true, beq_iff_eq, beq_iff_eq]
    refine and_congr_right ?_
    rintro rfl
    simp [List.count_eq_zero]

theorem openScope (h : c.Reflects a) : c.openScope.Reflects (.scope [] :: a) :=
  ⟨.cons Table.lists_empty h.scopes, h.function, h.classKind, .inr ⟨_, a, rfl⟩⟩

/-- The context of the parameters of a function. -/
theorem openFunction (h : c.Reflects a) (isMethod : Bool) (x : String) :
    (⟨.empty :: c.scopes, .ofAround (some (isMethod, x)), c.classKind⟩ : Context).Reflects
      (.scope [] :: .function isMethod x :: a) :=
  ⟨.cons Table.lists_empty h.scopes, rfl, h.classKind, .inr ⟨_, _, rfl⟩⟩

/-- The context of the methods of a class. -/
theorem inClass (h : c.Reflects a) (x : String) (p : Option Superclass) :
    (c.inClass x p).Reflects (a.inClass x p.isSome) := by
  have hd := h.define x
  have hs := Table.lists_empty.insert "super"
  have ht := Table.lists_empty.insert "this"
  cases p with
  | none => exact ⟨.cons ht hd.scopes, hd.function, rfl, .inr ⟨_, _, rfl⟩⟩
  | some p => exact ⟨.cons ht (.cons hs hd.scopes), hd.function, rfl, .inr ⟨_, _, rfl⟩⟩

end Reflects

end Context

/-! ### Visits and occurrences -/

/-- What a visit of the walk records. -/
def Visit.Records (v : Visit) (i d : Nat) : Prop := v.id? = some i ∧ v.distance? = some d

/-- The walk records and reports in its visits just what the text says of the occurrences. -/
structure Agree (vs : List Visit) (os : List Occurrence) : Prop where
  records : ∀ i d, (∃ v ∈ vs, v.Records i d) ↔ ∃ o ∈ os, o.Records i d
  errors : vs.flatMap Visit.errors = os.filterMap Occurrence.violation?

namespace Agree

theorem nil : Agree [] [] := ⟨by simp, rfl⟩

variable {vs us : List Visit} {os ps : List Occurrence} {v : Visit} {o : Occurrence}

theorem append (h : Agree vs os) (k : Agree us ps) : Agree (vs ++ us) (os ++ ps) where
  records i d := by
    simp only [List.mem_append, or_and_right, exists_or, h.records i d, k.records i d]
  errors := by rw [List.flatMap_append, List.filterMap_append, h.errors, k.errors]

theorem one (hr : ∀ i d, v.Records i d ↔ o.Records i d) (he : v.errors = o.violation?.toList) :
    Agree [v] [o] where
  records i d := by simp only [List.mem_singleton, exists_eq_left, hr]
  errors := by
    rw [List.flatMap_singleton, he]
    cases h : o.violation? <;> simp [h]

/-- A visit in which there is nothing to find. -/
theorem skip (hi : v.id? = none) (he : v.errors = []) : Agree [v] [] where
  records i d := by simp [Visit.Records, hi]
  errors := by simp [he]

theorem flatMap {α : Type} {f : α → Visit} {g : α → Occurrence} (h : ∀ x, Agree [f x] [g x])
    (xs : List α) : Agree (xs.map f) (xs.map g) := by
  induction xs with
  | nil => exact nil
  | cons x xs ih => exact (h x).append ih

end Agree

variable {w : Walk} {c : Context} {a : Surroundings}

/-! ### Expressions -/

namespace Context.Shows

/-- What is found at a variable depends on nothing but the scopes. -/
theorem agree_var (h : c.Shows a) {b : Context} (hb : b.scopes = c.scopes) (s : Site) (x : Ident) :
    Agree [⟨.expr (.var s x), b⟩] [⟨.expr (.var s x), a⟩] := by
  have hn : b.nearest? x.name = c.nearest? x.name := by rw [Context.nearest?, hb, Context.nearest?]
  have hu : b.isUndefined x.name = c.isUndefined x.name := by
    rw [Context.isUndefined, hb, Context.isUndefined]
  refine .one (fun i d => ?_) ?_
  · simp only [Visit.Records, Visit.id?, Sight.id?, Expr.site, Visit.distance?, Occurrence.Records,
      hn, h.nearest, Option.some.injEq]
  · simp only [Visit.errors, Occurrence.violation?, hu, h.undefined]
    split <;> rfl

private theorem agree_node (h : c.Shows a) (e : Expr) : Agree [⟨.expr e, c⟩] [⟨.expr e, a⟩] := by
  cases e with
  | var s x => exact h.agree_var rfl s x
  | assign s x e =>
    refine .one (fun i d => ?_) rfl
    simp only [Visit.Records, Visit.id?, Sight.id?, Expr.site, Visit.distance?, Occurrence.Records,
      h.nearest, Option.some.injEq]
  | this s =>
    refine .one (fun i d => ?_) ?_
    · cases hk : a.class? with
      | none =>
        simp [Visit.Records, Visit.distance?, Occurrence.Records, h.classKind, hk,
          ClassKind.ofAround]
      | some b =>
        cases b <;>
          simp [Visit.Records, Visit.id?, Sight.id?, Expr.site, Visit.distance?, Occurrence.Records,
            h.classKind, hk, ClassKind.ofAround, h.nearest]
    · cases hk : a.class? with
      | none => simp [Visit.errors, Occurrence.violation?, h.classKind, hk, ClassKind.ofAround]
      | some b =>
        cases b <;> simp [Visit.errors, Occurrence.violation?, h.classKind, hk, ClassKind.ofAround]
  | super s x =>
    refine .one (fun i d => ?_) ?_
    · simp only [Visit.Records, Visit.id?, Sight.id?, Expr.site, Visit.distance?,
        Occurrence.Records, h.nearest, Option.some.injEq]
    · cases hk : a.class? with
      | none => simp [Visit.errors, Occurrence.violation?, h.classKind, hk, ClassKind.ofAround]
      | some b =>
        cases b <;> simp [Visit.errors, Occurrence.violation?, h.classKind, hk, ClassKind.ofAround]
  | literal | grouping | unary | binary | logical | call | get | set =>
    refine .one (fun i d => ?_) rfl
    simp [Visit.Records, Visit.distance?, Occurrence.Records]

theorem agree (h : w.context.Shows a) (e : Expr) : Agree (e.visits w) (e.occurrences a) :=
  .flatMap h.agree_node e.nodes

end Context.Shows

/-! ### Statements -/

namespace Context.Reflects

/-- Whether a name is new depends on nothing but the scopes. -/
theorem agree_declaration (h : c.Reflects a) {b : Context} (hb : b.scopes = c.scopes) (x : Ident) :
    Agree [⟨.declaration x, b⟩] [⟨.declaration x, a⟩] := by
  have hc : b.holdsHere x.name = c.holdsHere x.name := by
    rw [Context.holdsHere, hb, Context.holdsHere]
  refine .one (fun i d => ?_) ?_
  · simp [Visit.Records, Visit.distance?, Occurrence.Records]
  · simp only [Visit.errors, Occurrence.violation?, hc, h.holdsHere]
    split <;> rfl

private theorem agree_inheritance (x : Ident) (p : Superclass) :
    Agree [⟨.inheritance x p, c⟩] [⟨.inheritance x p, a⟩] := by
  refine .one (fun i d => ?_) ?_
  · simp [Visit.Records, Visit.distance?, Occurrence.Records]
  · simp only [Visit.errors, Occurrence.violation?, beq_iff_eq]
    split <;> rfl

theorem agree_returning (h : c.Reflects a) (k : Span) (hasValue : Bool) :
    Agree [⟨.returning k hasValue, c⟩] [⟨.returning k hasValue, a⟩] := by
  refine .one (fun i d => ?_) ?_
  · simp [Visit.Records, Visit.distance?, Occurrence.Records]
  · simp only [Visit.errors, Occurrence.violation?, h.function]
    rcases a.function? with _ | ⟨_ | _, x⟩
    · simp [FunctionKind.ofAround]
    · simp [FunctionKind.ofAround]
    · by_cases hx : x = initializerName <;> cases hasValue <;>
        simp [FunctionKind.ofAround, FunctionKind.ofMethod, hx]

/-- The walk comes out of the parameters of a function in the context of the body. -/
theorem agree_parameters {xs : List String} (h : w.context.Reflects (.scope xs :: a))
    (ps : List Ident) :
    Agree (w.parameterVisits ps) (a.parameters xs ps) ∧
      (w.declareAll ps).context.Reflects (.scope (xs ++ ps.map Ident.name) :: a) := by
  induction ps generalizing w xs with
  | nil =>
    rw [List.map_nil, List.append_nil]
    exact ⟨.nil, h⟩
  | cons p ps ih =>
    have hp : ((w.declare p).define p.name).context.Reflects (.scope (xs ++ [p.name]) :: a) := by
      rw [w.context_declare_define]
      exact h.define p.name
    obtain ⟨hv, hd⟩ := ih hp
    rw [List.append_assoc, List.singleton_append] at hd
    exact ⟨(h.agree_declaration rfl p).append hv, hd⟩

private theorem agree_classHead (h : w.context.Reflects a) (x : Ident) (p : Option Superclass) :
    Agree (w.classVisits x p) (a.classHead x p) := by
  have hx :
      Agree [⟨.declaration x, { w with classKind := .plain }.context⟩] [⟨.declaration x, a⟩] :=
    h.agree_declaration (b := { w with classKind := .plain }.context) rfl x
  cases p with
  | none => exact hx
  | some p =>
    have hd := Walk.scopes_declare_define { w with classKind := .plain } x
    exact hx.append
      ((agree_inheritance x p).append ((h.define x.name).shows.agree_var hd p.site p.name))

end Context.Reflects

mutual

theorem Stmt.agree {w : Walk} {a : Surroundings} (h : w.context.Reflects a) : (s : Stmt) →
    Agree (s.visits w) (s.occurrences a)
  | .expr _ e => h.shows.agree e
  | .print t e => by
    have he := (h.shows.agree e).append (.skip (v := ⟨.print t, w.context⟩) rfl rfl)
    rwa [List.append_nil] at he
  | .var _ x none => h.agree_declaration rfl x
  | .var _ x (some e) =>
    (h.agree_declaration rfl x).append ((h.shows_declare x).agree e)
  | .block _ b => Stmt.agreeAll (w := w.openScope) h.openScope b
  | .ifElse _ c s none => by
    have hs := s.agree (w := c.resolve w) (by rwa [c.context_resolve])
    exact (h.shows.agree c).append (.append (.skip (v := ⟨.branch s, w.context⟩) rfl rfl) hs)
  | .ifElse _ c s (some t) => by
    have hc : (c.resolve w).context.Reflects a := by rwa [c.context_resolve]
    have ht := t.agree (w := s.resolve (c.resolve w)) (by
      rw [s.context_resolve_eq]
      exact hc.defineAll s.declaredNames)
    exact ((h.shows.agree c).append (.append (.skip (v := ⟨.branch s, w.context⟩) rfl rfl)
      (s.agree hc))).append
      (.append (.skip (v := ⟨.branch t, w.context⟩) rfl rfl) ht)
  | .whileLoop _ c s => by
    have hs := s.agree (w := c.resolve w) (by rwa [c.context_resolve])
    exact (h.shows.agree c).append (.append (.skip (v := ⟨.branch s, w.context⟩) rfl rfl) hs)
  | .function d => by
    have hd :
        ((w.declare d.name).define d.name.name).context.Reflects (a.declare [d.name.name]) := by
      rw [w.context_declare_define]
      exact h.define d.name.name
    exact (h.agree_declaration rfl d.name).append (d.agree hd false)
  | .classDecl _ x p ms => by
    have hm : (w.enterClass x p).context.Reflects (a.inClass x.name p.isSome) := by
      rw [w.context_enterClass]
      exact h.inClass x.name p
    exact (h.agree_classHead x p).append (FunctionDecl.agreeAll hm ms)
  | .returning _ k none => h.agree_returning k false
  | .returning _ k (some e) => by
    have he : (w.checkReturn k true).context.Reflects a := by rwa [w.context_checkReturn]
    exact (h.agree_returning k true).append (he.shows.agree e)

theorem Stmt.agreeAll {w : Walk} {a : Surroundings} (h : w.context.Reflects a) : (ss : List Stmt) →
    Agree (Stmt.visitsAll w ss) (Stmt.occurrencesAll a ss)
  | [] => .nil
  | s :: ss => by
    have hs : (s.resolve w).context.Reflects (a.declare s.declaredNames) := by
      rw [s.context_resolve_eq]
      exact h.defineAll s.declaredNames
    exact (s.agree h).append (Stmt.agreeAll hs ss)

theorem FunctionDecl.agree {w : Walk} {a : Surroundings} (h : w.context.Reflects a) :
    (d : FunctionDecl) →
    (isMethod : Bool) →
    Agree (d.visits w (.ofAround (some (isMethod, d.name.name)))) (d.occurrences a isMethod)
  | .mk x ps b _, isMethod => by
    let kind := FunctionKind.ofAround (some (isMethod, x.name))
    have hf :
        { w with function := kind }.openScope.context.Reflects (.scope [] ::
          .function isMethod x.name :: a) :=
      h.openFunction isMethod x.name
    obtain ⟨hp, hb⟩ := hf.agree_parameters ps
    exact hp.append (Stmt.agreeAll hb b)

theorem FunctionDecl.agreeAll {w : Walk} {a : Surroundings} (h : w.context.Reflects a) :
    (ds : List FunctionDecl) →
    Agree (FunctionDecl.visitsMethods w ds) (FunctionDecl.occurrencesAll a ds)
  | [] => .nil
  | d :: ds => by
    have hd : (d.resolve w (.ofMethod d.name.name)).context.Reflects a := by rwa [d.context_resolve]
    exact (d.agree h true).append (FunctionDecl.agreeAll hd ds)

end

end Lox
