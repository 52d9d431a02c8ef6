import Lox.Proofs.Scoping.Effect
/-!
# What a program without errors guarantees at its nodes

Only an expression in the initial value of a variable is visited while a name is declared and not
yet defined, and then that name is in the innermost scope. So in a program without errors the
nearest scope that holds the name of a variable holds it as defined wherever the variable is read.
Where it is assigned this need not be so: the walk does not look for an assignment to a variable in
its own initial value.
-/

namespace Lox

/-! ### Contexts -/

namespace Context

/-- What holds in the context of every node: names can be undefined in the innermost scope only, and
the scopes that hold `this` and `super` are open where the kind of class says so, the first just
inside the second. -/
structure Formed (c : Context) : Prop where
  outer : ∀ s ∈ c.scopes.tail, ∀ x, s.find? x ≠ some false
  receiver : c.classKind ≠ .none → c.status? "this" = some true
  parent : c.classKind = .subclass →
    ∃ d, c.nearest? "super" = some (d + 1) ∧ c.status? "super" = some true ∧
    c.nearest? "this" = some d

/-- What holds in the context of every statement: no name is undefined. -/
structure Settled (c : Context) : Prop extends c.Formed where
  inner : ∀ s ∈ c.scopes, ∀ x, s.find? x ≠ some false

theorem status?_cons (s : Scope) (ss : List Scope) (k : FunctionKind) (l : ClassKind) (x : String) :
    (⟨s :: ss, k, l⟩ : Context).status? x = (s.find? x).or ((⟨ss, k, l⟩ : Context).status? x) := by
  simp only [status?, List.findSome?_cons]
  cases s.find? x <;> rfl

theorem nearest?_cons (s : Scope) (ss : List Scope) (k : FunctionKind) (l : ClassKind)
    (x : String) :
    (⟨s :: ss, k, l⟩ : Context).nearest? x =
      if s.contains x then some 0 else ((⟨ss, k, l⟩ : Context).nearest? x).map (· + 1) := by
  simp only [nearest?, List.findIdx?_cons]

theorem status?_eq_none_iff (c : Context) (x : String) :
    c.status? x = none ↔ c.nearest? x = none := by
  simp [status?, nearest?, List.findSome?_eq_none_iff, List.findIdx?_eq_none_iff, Table.contains]

theorem nearest?_of_status? {c : Context} {x : String} {b : Bool} (h : c.status? x = some b) :
    ∃ d, c.nearest? x = some d := by
  cases hn : c.nearest? x with
  | some d => exact ⟨d, rfl⟩
  | none =>
    rw [(c.status?_eq_none_iff x).mpr hn] at h
    cases h

/-- A name that a scope holds and that is not undefined is defined. -/
theorem status?_of_nearest? {c : Context} {x : String} {d : Nat} (hd : c.nearest? x = some d)
    (hx : c.status? x ≠ some false) : c.status? x = some true := by
  cases hs : c.status? x with
  | none =>
    rw [(c.status?_eq_none_iff x).mp hs] at hd
    cases hd
  | some b =>
    cases b with
    | false => exact absurd hs hx
    | true => rfl

@[simp] theorem status?_openScope (c : Context) (x : String) :
    c.openScope.status? x = c.status? x :=
  (status?_cons .empty c.scopes c.function c.classKind x).trans (by rw [Table.find?_empty]; rfl)

@[simp] theorem nearest?_openScope (c : Context) (x : String) :
    c.openScope.nearest? x = (c.nearest? x).map (· + 1) :=
  (nearest?_cons .empty c.scopes c.function c.classKind x).trans (by simp [Table.contains])

theorem status?_insert_of_ne {s : Scope} {ss : List Scope} {k : FunctionKind} {l : ClassKind}
    {x y : String} (b : Bool) (h : x ≠ y) :
    (⟨s.insert x b :: ss, k, l⟩ : Context).status? y = (⟨s :: ss, k, l⟩ : Context).status? y := by
  rw [status?_cons, status?_cons, Table.find?_insert_of_ne s b h]

theorem nearest?_insert_of_ne {s : Scope} {ss : List Scope} {k : FunctionKind} {l : ClassKind}
    {x y : String} (b : Bool) (h : x ≠ y) :
    (⟨s.insert x b :: ss, k, l⟩ : Context).nearest? y = (⟨s :: ss, k, l⟩ : Context).nearest? y := by
  rw [nearest?_cons, nearest?_cons, Table.contains, Table.contains, Table.find?_insert_of_ne s b h]

/-- A name put into the innermost scope does not change what is known of other names. -/
theorem Formed.insert {s : Scope} {ss : List Scope} {k : FunctionKind} {l : ClassKind} {x : String}
    (h : Formed ⟨s :: ss, k, l⟩) (hx : Plain x) (b : Bool) : Formed ⟨s.insert x b :: ss, k, l⟩ where
  outer := h.outer
  receiver hl := by
    rw [status?_insert_of_ne b hx.1]
    exact h.receiver hl
  parent hl := by
    rw [nearest?_insert_of_ne b hx.1, nearest?_insert_of_ne b hx.2, status?_insert_of_ne b hx.2]
    exact h.parent hl

theorem Settled.define {c : Context} (h : c.Settled) {o : Option String}
    (ho : ∀ x, o = some x → Plain x) : (c.define o).Settled := by
  obtain ⟨ss, k, l⟩ := c
  cases o with
  | none => simpa using h
  | some x =>
    cases ss with
    | nil => exact h
    | cons s ss =>
      refine ⟨h.toFormed.insert (ho x rfl) true, fun t ht y => ?_⟩
      rcases List.mem_cons.mp ht with rfl | ht
      · rw [Table.find?_insert]
        split
        · simp
        · exact h.inner s List.mem_cons_self y
      · exact h.inner t (List.mem_cons_of_mem s ht) y

theorem Settled.openScope {c : Context} (h : c.Settled) : c.openScope.Settled where
  outer := h.inner
  receiver hl := by
    rw [status?_openScope]
    exact h.receiver hl
  parent hl := by
    obtain ⟨d, hs, ht, hr⟩ := h.parent hl
    exact ⟨d + 1, by simp [hs], by simpa using ht, by simp [hr]⟩
  inner s hs x := by
    rcases List.mem_cons.mp hs with rfl | hs
    · simp
    · exact h.inner s hs x

theorem Settled.withFunction {c : Context} (h : c.Settled) (k : FunctionKind) :
    { c with function := k }.Settled := ⟨⟨h.outer, h.receiver, h.parent⟩, h.inner⟩

/-- A scope around settled ones that holds one name as defined. -/
theorem inner_single {ss : List Scope} (h : ∀ s ∈ ss, ∀ x, s.find? x ≠ some false) (y : String) :
    ∀ s ∈ Table.empty.insert y true :: ss, ∀ x, s.find? x ≠ some false := by
  intro s hs x
  rcases List.mem_cons.mp hs with rfl | hs
  · rw [Table.find?_insert]
    split <;> simp
  · exact h s hs x

theorem Settled.inClass {c : Context} (h : c.Settled) {x : String} (hx : Plain x)
    (p : Option Superclass) : (c.inClass x p).Settled := by
  have hd : ∀ s ∈ defined (some x) c.scopes, ∀ y, s.find? y ≠ some false :=
    (h.define fun y hy => Option.some.inj hy ▸ hx).inner
  cases p with
  | none =>
    rw [inClass_none]
    refine ⟨⟨hd, fun _ => ?_, fun hl => by cases hl⟩, inner_single hd "this"⟩
    rw [status?_cons, Table.find?_insert_self]
    rfl
  | some p =>
    rw [inClass_some]
    refine ⟨⟨inner_single hd "super", fun _ => ?_, fun _ => ⟨0, ?_, ?_, ?_⟩⟩,
      inner_single (inner_single hd "super") "this"⟩
    · rw [status?_cons, Table.find?_insert_self]
      rfl
    · rw [nearest?_cons, nearest?_cons]
      simp [Table.contains, Table.find?_insert]
    · rw [status?_cons, status?_cons]
      simp [Table.find?_insert]
    · rw [nearest?_cons]
      simp [Table.contains]

/-- The context of the initial value of a variable that is new in its scope. -/
theorem Settled.formed_declare {w : Walk} (h : w.context.Settled) {x : Ident} (hx : Plain x.name) :
    (w.declare x).context.Formed := by
  unfold Walk.declare
  split
  · exact h.toFormed
  · rename_i s ss hs
    have hc : w.context = ⟨s :: ss, w.function, w.classKind⟩ := by rw [Walk.context, hs]
    split
    · exact h.toFormed
    · exact Formed.insert (hc ▸ h.toFormed) hx false

/-- Only in the innermost scope can a name be undefined. -/
theorem isUndefined_of_status? {c : Context} (h : ∀ s ∈ c.scopes.tail, ∀ x, s.find? x ≠ some false)
    {x : String} (hx : c.status? x = some false) : c.isUndefined x = true := by
  obtain ⟨ss, k, l⟩ := c
  cases ss with
  | nil => cases hx
  | cons s ss =>
    rw [status?_cons] at hx
    cases hs : s.find? x with
    | some b =>
      rw [hs] at hx
      simpa [isUndefined, hs] using hx
    | none =>
      rw [hs, Option.none_or, status?] at hx
      obtain ⟨t, ht, hf⟩ := List.exists_of_findSome?_eq_some hx
      exact absurd hf (h t ht x)

/-- A name that is undefined in the innermost scope is nearest there. -/
theorem status?_of_isUndefined {c : Context} {x : String} (h : c.isUndefined x = true) :
    c.status? x = some false ∧ c.nearest? x = some 0 := by
  obtain ⟨ss, k, l⟩ := c
  cases ss with
  | nil => cases h
  | cons s ss =>
    have hs : s.find? x = some false := by simpa [isUndefined] using h
    rw [status?_cons, nearest?_cons, Table.contains, hs]
    exact ⟨rfl, rfl⟩

end Context

/-! ### Visits -/

/-- What the walk guarantees where it stops without finding an error. -/
def Visit.Scoped (v : Visit) : Prop :=
  match v.sight with
  | .expr (.var _ x) => v.context.status? x.name ≠ some false
  | .expr (.assign _ x _) =>
    v.context.status? x.name = some false → v.context.isUndefined x.name = true
  | .expr (.this _) =>
    v.distance? = v.context.nearest? "this" ∧ v.context.status? "this" = some true
  | .expr (.super _ _) =>
    v.context.status? "super" = some true ∧ v.context.status? "this" = some true ∧
      ∃ d, v.context.nearest? "super" = some (d + 1) ∧ v.context.nearest? "this" = some d
  | _ => True

theorem Visit.scoped_var {c : Context} {s : Site} {x : Ident}
    (h : ∀ s ∈ c.scopes.tail, ∀ x, s.find? x ≠ some false)
    (he : (⟨.expr (.var s x), c⟩ : Visit).errors = []) :
    (⟨.expr (.var s x), c⟩ : Visit).Scoped := by
  intro hx
  simp [Visit.errors, Context.isUndefined_of_status? h hx] at he

private theorem Visit.scoped_expr {e : Expr} {c : Context} (h : c.Formed)
    (he : (⟨.expr e, c⟩ : Visit).errors = []) : (⟨.expr e, c⟩ : Visit).Scoped := by
  cases e with
  | var s x => exact Visit.scoped_var h.outer he
  | assign s x e => exact Context.isUndefined_of_status? h.outer
  | this s =>
    by_cases hk : c.classKind = .none
    · simp [Visit.errors, hk] at he
    · exact ⟨by simp [Visit.distance?, hk], h.receiver hk⟩
  | super s x =>
    have hk : c.classKind = .subclass := by
      cases hk : c.classKind with
      | subclass => rfl
      | none | plain => simp [Visit.errors, hk] at he
    obtain ⟨d, hs, ht, hr⟩ := h.parent hk
    exact ⟨ht, h.receiver (by simp [hk]), d, hs, hr⟩
  | literal | grouping | unary | binary | logical | call | get | set => trivial

/-- The walk found no error where it stopped, and stopped at something proper. -/
structure Visit.Faultless (v : Visit) : Prop where
  proper : v.sight.Proper
  errors_eq : v.errors = []

theorem Expr.scoped_visits {w : Walk} (hw : w.context.Formed) (e : Expr)
    (h : ∀ v ∈ e.visits w, v.Faultless) : ∀ v ∈ e.visits w, v.Scoped := by
  intro v hv
  have he := (h v hv).2
  obtain ⟨n, _, rfl⟩ := List.mem_map.mp hv
  exact Visit.scoped_expr hw he

/-- A statement that was visited without an error declares a plain name. -/
theorem Stmt.plain_declares {w : Walk} {s : Stmt} (h : ∀ v ∈ s.visits w, v.Faultless) :
    ∀ x, s.declares? = some x → Plain x := by
  intro x hx
  cases s with
  | var t y e =>
    cases hx
    cases e with
    | none => exact (h _ (List.mem_singleton_self _)).1
    | some e => exact (h _ List.mem_cons_self).1
  | function d =>
    cases hx
    exact (h _ List.mem_cons_self).1
  | classDecl t y p ms =>
    cases hx
    exact (h _ (List.mem_append_left _ List.mem_cons_self)).1
  | expr | print | block | ifElse | whileLoop | returning => cases hx

theorem Stmt.settled_resolve {w : Walk} (hw : w.context.Settled) {s : Stmt}
    (h : ∀ v ∈ s.visits w, v.Faultless) : (s.resolve w).context.Settled := by
  rw [s.context_resolve w fun v hv => (h v hv).1]
  exact hw.define (Stmt.plain_declares h)

namespace Walk

theorem settled_declareAll {w : Walk} (hw : w.context.Settled) (xs : List Ident)
    (h : ∀ v ∈ w.parameterVisits xs, v.Faultless) : (w.declareAll xs).context.Settled := by
  induction xs generalizing w with
  | nil => exact hw
  | cons x xs ih =>
    refine ih ?_ fun v hv => h v (List.mem_cons_of_mem _ hv)
    rw [context_declare_define]
    exact hw.define fun y hy => Option.some.inj hy ▸ (h _ List.mem_cons_self).1

private theorem scoped_parameterVisits (w : Walk) (xs : List Ident) :
    ∀ v ∈ w.parameterVisits xs, v.Scoped := by
  induction xs generalizing w with
  | nil => intro v hv; cases hv
  | cons x xs ih =>
    intro v hv
    rcases List.mem_cons.mp hv with rfl | hv
    · trivial
    · exact ih _ v hv

private theorem scoped_classVisits {w : Walk} (hw : w.context.Settled) (x : Ident)
    (p : Option Superclass) (h : ∀ v ∈ w.classVisits x p, v.Faultless) :
    ∀ v ∈ w.classVisits x p, v.Scoped := by
  intro v hv
  rcases List.mem_cons.mp hv with rfl | hv
  · trivial
  cases p with
  | none => cases hv
  | some p =>
    rcases List.mem_cons.mp hv with rfl | hv'
    · trivial
    obtain rfl := List.mem_singleton.mp hv'
    have hx : Plain x.name := (h _ List.mem_cons_self).1
    have hd : (w.context.define (some x.name)).Settled :=
      hw.define fun y hy => Option.some.inj hy ▸ hx
    have hc := congrArg Context.scopes (context_declare_define { w with classKind := .plain } x)
    refine Visit.scoped_var (fun s hs => hd.inner s ?_) (h _ (List.mem_cons_of_mem _ hv)).2
    exact List.mem_of_mem_tail (hc ▸ hs)

end Walk

mutual

theorem Stmt.scoped_visits {w : Walk} (hw : w.context.Settled) : (s : Stmt) →
    (∀ v ∈ s.visits w, v.Faultless) → ∀ v ∈ s.visits w, v.Scoped
  | .expr _ e, h => e.scoped_visits hw.toFormed h
  | .print _ e, h => by
    intro v hv
    rcases List.mem_append.mp hv with he | he
    · exact e.scoped_visits hw.toFormed (fun u hu => h u (List.mem_append_left _ hu)) v he
    · rw [List.mem_singleton.mp he]
      trivial
  | .var _ x none, _ => by
    intro v hv
    rw [List.mem_singleton.mp hv]
    trivial
  | .var _ x (some e), h => by
    intro v hv
    have hx : Plain x.name := (h _ List.mem_cons_self).1
    rcases List.mem_cons.mp hv with rfl | he
    · trivial
    · exact e.scoped_visits (hw.formed_declare hx)
        (fun u hu => h u (List.mem_cons_of_mem _ hu)) v he
  | .block _ b, h => Stmt.scoped_visitsAll (w := w.openScope) hw.openScope b h
  | .ifElse _ c s none, h => by
    simp only [Stmt.visits, List.mem_append, List.mem_cons] at h ⊢
    rintro v (hc | rfl | hs)
    · exact c.scoped_visits hw.toFormed (fun u hu => h u (.inl hu)) v hc
    · trivial
    · refine s.scoped_visits ?_ (fun u hu => h u (.inr (.inr hu))) v hs
      rwa [c.context_resolve]
  | .ifElse _ c s (some t), h => by
    simp only [Stmt.visits, List.mem_append, List.mem_cons] at h ⊢
    have hcw : (c.resolve w).context.Settled := by rwa [c.context_resolve]
    have hs : ∀ u ∈ s.visits (c.resolve w), u.Faultless := fun u hu => h u (.inl (.inr (.inr hu)))
    rintro v ((hv | rfl | hv) | rfl | hv)
    · exact c.scoped_visits hw.toFormed (fun u hu => h u (.inl (.inl hu))) v hv
    · trivial
    · exact s.scoped_visits hcw hs v hv
    · trivial
    · exact t.scoped_visits (Stmt.settled_resolve hcw hs) (fun u hu => h u (.inr (.inr hu))) v hv
  | .whileLoop _ c s, h => by
    simp only [Stmt.visits, List.mem_append, List.mem_cons] at h ⊢
    rintro v (hc | rfl | hs)
    · exact c.scoped_visits hw.toFormed (fun u hu => h u (.inl hu)) v hc
    · trivial
    · refine s.scoped_visits ?_ (fun u hu => h u (.inr (.inr hu))) v hs
      rwa [c.context_resolve]
  | .function d, h => by
    intro v hv
    have hx : Plain d.name.name := (h _ List.mem_cons_self).1
    rcases List.mem_cons.mp hv with rfl | hd
    · trivial
    · refine d.scoped_visits ?_ .function (fun u hu => h u (List.mem_cons_of_mem _ hu)) v hd
      rw [Walk.context_declare_define]
      exact hw.define fun y hy => Option.some.inj hy ▸ hx
  | .classDecl _ x p ms, h => by
    intro v hv
    have hx : Plain x.name := (h _ (List.mem_append_left _ List.mem_cons_self)).1
    rcases List.mem_append.mp hv with hc | hm
    · exact w.scoped_classVisits hw x p (fun u hu => h u (List.mem_append_left _ hu)) v hc
    · refine FunctionDecl.scoped_visitsMethods ?_ ms
        (fun u hu => h u (List.mem_append_right _ hu)) v hm
      rw [Walk.context_enterClass]
      exact hw.inClass hx p
  | .returning _ k none, _ => by
    intro v hv
    rw [List.mem_singleton.mp hv]
    trivial
  | .returning _ k (some e), h => by
    intro v hv
    rcases List.mem_cons.mp hv with rfl | he
    · trivial
    · refine e.scoped_visits ?_ (fun u hu => h u (List.mem_cons_of_mem _ hu)) v he
      rw [Walk.context_checkReturn]
      exact hw.toFormed

theorem Stmt.scoped_visitsAll {w : Walk} (hw : w.context.Settled) : (ss : List Stmt) →
    (∀ v ∈ Stmt.visitsAll w ss, v.Faultless) → ∀ v ∈ Stmt.visitsAll w ss, v.Scoped
  | [], _ => by
    intro v hv
    cases hv
  | s :: ss, h => by
    intro v hv
    have hs : ∀ u ∈ s.visits w, u.Faultless := fun u hu => h u (List.mem_append_left _ hu)
    rcases List.mem_append.mp hv with hv | hv
    · exact s.scoped_visits hw hs v hv
    · exact Stmt.scoped_visitsAll (Stmt.settled_resolve hw hs) ss
        (fun u hu => h u (List.mem_append_right _ hu)) v hv

theorem FunctionDecl.scoped_visits {w : Walk} (hw : w.context.Settled) : (d : FunctionDecl) →
    (kind : FunctionKind) → (∀ v ∈ d.visits w kind, v.Faultless) → ∀ v ∈ d.visits w kind, v.Scoped
  | .mk _ ps b _, kind, h => by
    intro v hv
    have hi : { w with function := kind }.openScope.context.Settled :=
      (hw.withFunction kind).openScope
    rcases List.mem_append.mp hv with hv | hv
    · exact Walk.scoped_parameterVisits _ ps v hv
    · exact Stmt.scoped_visitsAll
        (Walk.settled_declareAll hi ps fun u hu => h u (List.mem_append_left _ hu)) b
        (fun u hu => h u (List.mem_append_right _ hu)) v hv

theorem FunctionDecl.scoped_visitsMethods {w : Walk} (hw : w.context.Settled) :
    (ds : List FunctionDecl) →
    (∀ v ∈ FunctionDecl.visitsMethods w ds, v.Faultless) →
    ∀ v ∈ FunctionDecl.visitsMethods w ds, v.Scoped
  | [], _ => by
    intro v hv
    cases hv
  | d :: ds, h => by
    intro v hv
    have hd : ∀ u ∈ d.visits w (.ofMethod d.name.name), u.Faultless :=
      fun u hu => h u (List.mem_append_left _ hu)
    rcases List.mem_append.mp hv with hv | hv
    · exact d.scoped_visits hw _ hd v hv
    · refine FunctionDecl.scoped_visitsMethods ?_ ds
        (fun u hu => h u (List.mem_append_right _ hu)) v hv
      rwa [d.context_resolve]

end

end Lox
