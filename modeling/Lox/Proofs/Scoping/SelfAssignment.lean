import Lox.Proofs.Scoping.Sound
/-!
# Assignments to a variable in its own initial value

The walk reports a read of a local variable in its own initial value, but not an assignment
to it. These assignments are the only ones that it meets while their variable is declared
and not yet defined.
-/

namespace Lox

/-! ### In the text of a program -/

/-- Whether an assignment to the variable is evaluated with the expression. -/
def Expr.assigns (x : String) (e : Expr) : Bool :=
  e.nodes.any fun n =>
    match n with
    | .assign _ y _ => y.name == x
    | _ => false

mutual

/-- Whether the initial value of a local variable in the statement assigns the variable itself;
`inner` says whether the statement stands in a scope. -/
def Stmt.selfAssigns (inner : Bool) : Stmt → Bool
  | .var _ x (some e) => inner && e.assigns x.name
  | .block _ b => Stmt.anySelfAssigns true b
  | .ifElse _ _ s none => s.selfAssigns inner
  | .ifElse _ _ s (some t) => s.selfAssigns inner || t.selfAssigns inner
  | .whileLoop _ _ s => s.selfAssigns inner
  | .function d => d.selfAssigns
  | .classDecl _ _ _ ms => FunctionDecl.anySelfAssigns ms
  | _ => false

def Stmt.anySelfAssigns (inner : Bool) : List Stmt → Bool
  | [] => false
  | s :: ss => s.selfAssigns inner || Stmt.anySelfAssigns inner ss

def FunctionDecl.selfAssigns : FunctionDecl → Bool
  | .mk _ _ b _ => Stmt.anySelfAssigns true b

def FunctionDecl.anySelfAssigns : List FunctionDecl → Bool
  | [] => false
  | d :: ds => d.selfAssigns || FunctionDecl.anySelfAssigns ds

end

/-- Whether the initial value of some local variable of the program assigns the variable itself. -/
def Program.selfAssigns (p : Program) : Bool := Stmt.anySelfAssigns false p.body

/-! ### In the stops of the walk -/

/-- Whether the stop is at an assignment to a variable that is not yet defined. -/
def Visit.SelfAssigns (v : Visit) : Prop :=
  match v.sight with
  | .expr (.assign _ x _) => v.context.isUndefined x.name = true
  | _ => False

theorem Context.Settled.isUndefined {c : Context} (h : c.Settled) (x : String) :
    c.isUndefined x = false := by
  obtain ⟨ss, k, l⟩ := c
  cases ss with
  | nil => rfl
  | cons s ss => simpa [Context.isUndefined] using h.inner s List.mem_cons_self x

/-- Only the variable that is declared is not yet defined, and only if it is local. -/
theorem Walk.isUndefined_declare {w : Walk} (hw : w.context.Settled) {x : Ident} {y : String}
    (h : (w.declare x).context.isUndefined y = true) : w.scopes ≠ [] ∧ y = x.name := by
  unfold Walk.declare at h
  split at h
  · exact absurd h (by simp [hw.isUndefined])
  · rename_i s ss hs
    refine ⟨by simp [hs], ?_⟩
    split at h
    · have hr : (w.report .alreadyDeclared x.span).context = w.context := rfl
      rw [hr, hw.isUndefined] at h
      cases h
    · by_cases hxy : x.name = y
      · exact hxy.symm
      · have hc := hw.isUndefined y
        simp only [Context.isUndefined, Walk.context, hs] at h hc
        rw [Table.find?_insert, if_neg hxy, hc] at h
        cases h

theorem Visit.not_selfAssigns {w : Walk} (hw : w.context.Settled) {e : Expr} {v : Visit}
    (hv : v ∈ e.visits w) : ¬ v.SelfAssigns := by
  obtain ⟨n, -, rfl⟩ := List.mem_map.mp hv
  cases n with
  | assign s x e => simp [Visit.SelfAssigns, hw.isUndefined]
  | literal | grouping | unary | binary | logical | var | call | get | set | this
  | super => exact id

/-- A stop at such an assignment in an initial value. -/
theorem Expr.assigns_of_selfAssigns {w : Walk} (hw : w.context.Settled) {x : Ident} {e : Expr}
    {v : Visit} (hv : v ∈ e.visits (w.declare x)) (h : v.SelfAssigns) :
    (!w.scopes.isEmpty && e.assigns x.name) = true := by
  obtain ⟨n, hn, rfl⟩ := List.mem_map.mp hv
  cases n with
  | assign s y e' =>
    obtain ⟨hne, hy⟩ := Walk.isUndefined_declare hw h
    have ha : e.assigns x.name = true := List.any_eq_true.mpr ⟨_, hn, by simp [hy]⟩
    simp [ha, hne]
  | literal | grouping | unary | binary | logical | var | call | get | set | this | super => cases h

private theorem Walk.not_selfAssigns_parameterVisits (w : Walk) (ps : List Ident) {v : Visit}
    (hv : v ∈ w.parameterVisits ps) : ¬ v.SelfAssigns := by
  induction ps generalizing w with
  | nil => cases hv
  | cons p ps ih =>
    rcases List.mem_cons.mp hv with rfl | hv
    · exact id
    · exact ih _ hv

private theorem Walk.not_selfAssigns_classVisits (w : Walk) (x : Ident) (p : Option Superclass)
    {v : Visit} (hv : v ∈ w.classVisits x p) : ¬ v.SelfAssigns := by
  rcases List.mem_cons.mp hv with rfl | hv
  · exact id
  · cases p with
    | none => cases hv
    | some p =>
      rcases List.mem_cons.mp hv with rfl | hv
      · exact id
      · rw [List.mem_singleton.mp hv]
        exact id

mutual

theorem Stmt.selfAssigns_of_visits {w : Walk} (hw : w.context.Settled) : (s : Stmt) →
    (∀ v ∈ s.visits w, v.Faultless) → ∀ v ∈ s.visits w, v.SelfAssigns →
    s.selfAssigns (!w.scopes.isEmpty) = true
  | .expr _ e, _ => fun v hv hs => absurd hs (Visit.not_selfAssigns hw hv)
  | .print _ e, _ => by
    intro v hv hs
    rcases List.mem_append.mp hv with hv | hv
    · exact absurd hs (Visit.not_selfAssigns hw hv)
    · rw [List.mem_singleton.mp hv] at hs
      exact hs.elim
  | .var _ x none, _ => by
    intro v hv hs
    rw [List.mem_singleton.mp hv] at hs
    exact hs.elim
  | .var _ x (some e), _ => by
    intro v hv hs
    rcases List.mem_cons.mp hv with rfl | hv
    · exact hs.elim
    · exact Expr.assigns_of_selfAssigns hw hv hs
  | .block _ b, h => Stmt.anySelfAssigns_of_visits (w := w.openScope) hw.openScope b h
  | .ifElse _ c s none, h => by
    simp only [Stmt.visits, List.mem_append, List.mem_cons] at h ⊢
    have hcw : (c.resolve w).context.Settled := by rwa [c.context_resolve]
    rintro v (hv | rfl | hv) hs
    · exact absurd hs (Visit.not_selfAssigns hw hv)
    · exact hs.elim
    · have ih := s.selfAssigns_of_visits hcw (fun u hu => h u (.inr (.inr hu))) v hv hs
      rwa [c.scopes_resolve] at ih
  | .ifElse _ c s (some t), h => by
    simp only [Stmt.visits, List.mem_append, List.mem_cons] at h ⊢
    have hcw : (c.resolve w).context.Settled := by rwa [c.context_resolve]
    have hs : ∀ u ∈ s.visits (c.resolve w), u.Faultless := fun u hu => h u (.inl (.inr (.inr hu)))
    have hnone : s.declares? = none := (h _ (.inl (.inr (.inl rfl)))).proper
    rintro v ((hv | rfl | hv) | rfl | hv) hself
    · exact absurd hself (Visit.not_selfAssigns hw hv)
    · exact hself.elim
    · have ih := s.selfAssigns_of_visits hcw hs v hv hself
      rw [c.scopes_resolve] at ih
      simp [Stmt.selfAssigns, ih]
    · exact hself.elim
    · have ih :=
        t.selfAssigns_of_visits (Stmt.settled_resolve hcw hs) (fun u hu => h u (.inr (.inr hu)))
        v hv hself
      rw [Stmt.scopes_resolve fun u hu => (hs u hu).proper, hnone, defined_none,
        c.scopes_resolve] at ih
      simp [Stmt.selfAssigns, ih]
  | .whileLoop _ c s, h => by
    simp only [Stmt.visits, List.mem_append, List.mem_cons] at h ⊢
    have hcw : (c.resolve w).context.Settled := by rwa [c.context_resolve]
    rintro v (hv | rfl | hv) hs
    · exact absurd hs (Visit.not_selfAssigns hw hv)
    · exact hs.elim
    · have ih := s.selfAssigns_of_visits hcw (fun u hu => h u (.inr (.inr hu))) v hv hs
      rwa [c.scopes_resolve] at ih
  | .function d, h => by
    intro v hv hs
    have hx : Plain d.name.name := (h _ List.mem_cons_self).proper
    rcases List.mem_cons.mp hv with rfl | hv
    · exact hs.elim
    · refine d.selfAssigns_of_visits ?_ .function
        (fun u hu => h u (List.mem_cons_of_mem _ hu)) v hv hs
      rw [Walk.context_declare_define]
      exact hw.define fun y hy => Option.some.inj hy ▸ hx
  | .classDecl _ x p ms, h => by
    intro v hv hs
    have hx : Plain x.name := (h _ (List.mem_append_left _ List.mem_cons_self)).proper
    rcases List.mem_append.mp hv with hv | hv
    · exact absurd hs (w.not_selfAssigns_classVisits x p hv)
    · refine FunctionDecl.anySelfAssigns_of_visits ?_ ms
        (fun u hu => h u (List.mem_append_right _ hu)) v hv hs
      rw [Walk.context_enterClass]
      exact hw.inClass hx p
  | .returning _ k none, _ => by
    intro v hv hs
    rw [List.mem_singleton.mp hv] at hs
    exact hs.elim
  | .returning _ k (some e), _ => by
    intro v hv hs
    rcases List.mem_cons.mp hv with rfl | hv
    · exact hs.elim
    · refine absurd hs (Visit.not_selfAssigns ?_ hv)
      rwa [Walk.context_checkReturn]

theorem Stmt.anySelfAssigns_of_visits {w : Walk} (hw : w.context.Settled) : (ss : List Stmt) →
    (∀ v ∈ Stmt.visitsAll w ss, v.Faultless) → ∀ v ∈ Stmt.visitsAll w ss, v.SelfAssigns →
    Stmt.anySelfAssigns (!w.scopes.isEmpty) ss = true
  | [], _ => by
    intro v hv
    cases hv
  | s :: ss, h => by
    intro v hv hself
    have hs : ∀ u ∈ s.visits w, u.Faultless := fun u hu => h u (List.mem_append_left _ hu)
    rcases List.mem_append.mp hv with hv | hv
    · have ih := s.selfAssigns_of_visits hw hs v hv hself
      simp [Stmt.anySelfAssigns, ih]
    · have ih := Stmt.anySelfAssigns_of_visits (Stmt.settled_resolve hw hs) ss
        (fun u hu => h u (List.mem_append_right _ hu)) v hv hself
      have he : (s.resolve w).scopes.isEmpty = w.scopes.isEmpty := by
        rw [Stmt.scopes_resolve fun u hu => (hs u hu).proper]
        cases s.declares? <;> cases w.scopes <;> rfl
      rw [he] at ih
      simp [Stmt.anySelfAssigns, ih]

theorem FunctionDecl.selfAssigns_of_visits {w : Walk} (hw : w.context.Settled) :
    (d : FunctionDecl) →
    (kind : FunctionKind) → (∀ v ∈ d.visits w kind, v.Faultless) →
    ∀ v ∈ d.visits w kind, v.SelfAssigns →
    d.selfAssigns = true
  | .mk _ ps b _, kind, h => by
    intro v hv hs
    have hi : { w with function := kind }.openScope.context.Settled :=
      (hw.withFunction kind).openScope
    rcases List.mem_append.mp hv with hv | hv
    · exact absurd hs (Walk.not_selfAssigns_parameterVisits _ ps hv)
    · have ih := Stmt.anySelfAssigns_of_visits
        (Walk.settled_declareAll hi ps fun u hu => h u (List.mem_append_left _ hu)) b
        (fun u hu => h u (List.mem_append_right _ hu)) v hv hs
      rw [Walk.scopes_declareAll rfl ps] at ih
      exact ih

theorem FunctionDecl.anySelfAssigns_of_visits {w : Walk} (hw : w.context.Settled) :
    (ds : List FunctionDecl) →
    (∀ v ∈ FunctionDecl.visitsMethods w ds, v.Faultless) → ∀ v ∈ FunctionDecl.visitsMethods w ds,
    v.SelfAssigns → FunctionDecl.anySelfAssigns ds = true
  | [], _ => by
    intro v hv
    cases hv
  | d :: ds, h => by
    intro v hv hs
    have hd : ∀ u ∈ d.visits w (.ofMethod d.name.name), u.Faultless :=
      fun u hu => h u (List.mem_append_left _ hu)
    rcases List.mem_append.mp hv with hv | hv
    · have ih := d.selfAssigns_of_visits hw _ hd v hv hs
      simp [FunctionDecl.anySelfAssigns, ih]
    · have ih := FunctionDecl.anySelfAssigns_of_visits (by rwa [d.context_resolve])
        ds (fun u hu => h u (List.mem_append_right _ hu)) v hv hs
      simp [FunctionDecl.anySelfAssigns, ih]

end

end Lox
