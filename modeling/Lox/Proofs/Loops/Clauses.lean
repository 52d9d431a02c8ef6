import Lox.Proofs.Loops.Rounds
import Lox.Proofs.Loops.Scopes
import Lox.Proofs.Reading.Sights
/-!
# Resolving the clauses of a loop

Resolving the statements that a loop stands for finds for each clause what resolving the loop itself
finds, but for the scope that is around the body and the increment where there is an increment.
-/

namespace Lox

variable {D : Distances} {w w' : Walk}

namespace ForLoop

variable (l : ForLoop)

/-! ### What the loop itself shows -/

def sights : List Sight :=
  (l.initial.elim [] Stmt.sights ++ l.condition.elim [] Expr.sights) ++
    l.increment.elim [] Expr.sights ++
    l.body.sights

/-- The numbers of the expressions in the loop. -/
def numbers : List Nat := l.sights.filterMap Sight.id?

/-- The visits to the initial statement. -/
def initialVisits (w : Walk) : List Visit := l.initial.elim [] (Stmt.visits w.openScope)

/-- The visits to an expression that can be missing. -/
def clauseVisits (w : Walk) (e : Option Expr) : List Visit := e.elim [] (Expr.visits w)

/-- What resolving the loop stops at. -/
def visits (w : Walk) : List Visit :=
  let condition := l.enter w
  let increment := resolveClause condition l.condition
  (l.initialVisits w ++ clauseVisits condition l.condition) ++ clauseVisits increment l.increment ++
    l.body.visits (resolveClause increment l.increment)

@[simp] theorem context_resolveClause (w : Walk) (e : Option Expr) :
    (resolveClause w e).context = w.context := by
  cases e with
  | none => rfl
  | some e => exact e.context_resolve w

theorem findings_resolveClause (w : Walk) (e : Option Expr) :
    (resolveClause w e).findings = (clauseVisits w e).foldl Findings.note w.findings := by
  cases e with
  | none => rfl
  | some e => exact e.findings_resolve w

private theorem findings_enter (w : Walk) :
    (l.enter w).findings = (l.initialVisits w).foldl Findings.note w.findings := by
  unfold enter initialVisits
  cases l.initial with
  | none => rfl
  | some s => exact s.findings_resolve w.openScope

theorem findings_resolve (w : Walk) :
    (l.resolve w).findings = (l.visits w).foldl Findings.note w.findings := by
  have hbody : (l.resolve w).findings =
      (l.body.resolve
        (resolveClause (resolveClause (l.enter w) l.condition) l.increment)).findings := by
    unfold resolve
    split <;> rfl
  rw [hbody, l.body.findings_resolve, findings_resolveClause, findings_resolveClause,
    findings_enter, visits, List.foldl_append, List.foldl_append, List.foldl_append]

theorem map_sight_clauseVisits (w : Walk) (e : Option Expr) :
    (clauseVisits w e).map Visit.sight = e.elim [] Expr.sights := by
  cases e with
  | none => rfl
  | some e => exact e.map_sight_visits w

theorem map_sight_visits (w : Walk) : (l.visits w).map Visit.sight = l.sights := by
  have hinitial : (l.initialVisits w).map Visit.sight = l.initial.elim [] Stmt.sights := by
    unfold initialVisits
    cases l.initial with
    | none => rfl
    | some s => exact s.map_sight_visits w.openScope
  rw [visits, List.map_append, List.map_append, List.map_append, hinitial, map_sight_clauseVisits,
    map_sight_clauseVisits, l.body.map_sight_visits, sights]

theorem filterMap_id?_visits (w : Walk) : (l.visits w).filterMap Visit.id? = l.numbers := by
  rw [numbers, ← l.map_sight_visits w, List.filterMap_map]
  rfl

/-- Resolving the loop records what its visits find, if its expressions have different numbers. -/
theorem recorded_visits (hn : l.numbers.Nodup) (hw : w.distances = .empty)
    (hd : ∀ i ∈ l.numbers, D.get? i = (l.resolve w).distances.get? i) :
    ∀ v ∈ l.visits w, v.Recorded D := by
  have hids := l.filterMap_id?_visits w
  intro v hv i hi
  have hmem : i ∈ l.numbers := hids ▸ List.mem_filterMap.mpr ⟨v, hv, hi⟩
  have hfound :=
    Findings.get?_foldl w.findings (hids ▸ hn) hv hi
      (by rw [Walk.findings, hw, Distances.get?_empty])
  rw [hd i hmem, ← hfound, ← l.findings_resolve w]
  rfl

/-- It records nothing for other expressions. -/
theorem get?_resolve_of_notMem (hw : w.distances = .empty) {i : Nat} (hi : i ∉ l.numbers) :
    (l.resolve w).distances.get? i = none := by
  have hvisits :=
    Findings.get?_foldl_of_notMem w.findings (l.visits w) (l.filterMap_id?_visits w ▸ hi)
  rw [← l.findings_resolve w] at hvisits
  refine hvisits.trans ?_
  rw [Walk.findings, hw, Distances.get?_empty]

/-! ### What the statements show -/

private theorem visits_desugared (always : Site) (w : Walk) :
    (l.desugared always).visits w =
      l.initialVisits w ++ ((l.holds always).visits (l.enter w) ++
        ⟨.branch l.inner, (l.enter w).context⟩ ::
        l.inner.visits ((l.holds always).resolve (l.enter w))) := by
  rw [desugared_eq, initialVisits, enter]
  cases l.initial with
  | none => rfl
  | some s => simp [Stmt.visits, Stmt.visitsAll]

private theorem visits_inner (u : Walk) {e : Expr} (he : l.increment = some e) :
    l.inner.visits u = l.body.visits u.openScope ++ e.visits (l.body.resolve u.openScope) := by
  simp [inner, he, Stmt.visits, Stmt.visitsAll]

/-! ### Copies -/

/-- Two loops that differ in nothing but the numbers of their expressions. -/
structure Copy (l l' : ForLoop) : Prop where
  span : l'.span = l.span
  initial : Option.Rel (Stmt.Like .renumbered) l.initial l'.initial
  condition : Option.Rel (Expr.Like .renumbered) l.condition l'.condition
  increment : Option.Rel (Expr.Like .renumbered) l.increment l'.increment
  body : l.body.Like .renumbered l'.body

variable {l} {l' : ForLoop}

theorem lifted_clause {p : Setting} (hw : w.context = w'.context.widen p) {e e' : Option Expr}
    (h : Option.Rel (Expr.Like .renumbered) e e') (hv : ∀ v ∈ clauseVisits w e, v.Sound D)
    (hv' : ∀ v ∈ clauseVisits w' e', v.Recorded D) : Option.Rel (Expr.Lifted D p) e e' := by
  cases h with
  | none => exact .none
  | some h => exact .some (Expr.lifted_visits hw h hv hv')

namespace Copy

variable (h : l.Copy l')

include h

/-- With an increment the body and the increment stand in a scope that holds nothing. -/
theorem lifted_round (hbody : l.body.declares? = none) {u i b : Walk} (hi : u.context = i.context)
    (hb : u.context = b.context) (hv : ∀ v ∈ l.inner.visits u, v.Sound D)
    (hvi : ∀ v ∈ clauseVisits i l'.increment, v.Recorded D)
    (hvb : ∀ v ∈ l'.body.visits b, v.Recorded D) :
    Option.Rel (Expr.Lifted D l.setting) l.increment l'.increment ∧
    l.body.Lifted D l.setting l'.body := by
  have hincrement := h.increment
  cases he : l.increment with
  | none =>
    rw [he] at hincrement
    rw [inner, he] at hv
    rw [setting, he, Option.isSome_none, if_neg Bool.false_ne_true]
    generalize l'.increment = e' at *
    cases hincrement
    exact ⟨.none,
      Stmt.lifted_of_like (p := .outside) hb _ _ h.body (absurd · Setting.outside_ne) hv hvb⟩
  | some e =>
    rw [he] at hincrement
    rw [visits_inner l u he] at hv
    rw [setting, he, Option.isSome_some, if_pos rfl]
    have hsound : ∀ v ∈ l.body.visits u.openScope, v.Sound D := fun v hm =>
      hv v (List.mem_append_left _ hm)
    have hnames : l.body.declaredNames = [] := by
      rw [l.body.declaredNames_eq u.openScope fun v hm => (hsound v hm).proper, hbody]
      rfl
    have hopen : ∀ {i : Walk}, u.context = i.context →
        u.openScope.context = i.context.widen (.inside 0) :=
      fun hi => congrArg Context.openScope hi
    have hbehind : (l.body.resolve u.openScope).context = i.context.widen (.inside 0) := by
      rw [l.body.context_resolve_eq, hnames]
      exact hopen hi
    refine ⟨lifted_clause hbehind hincrement (fun v hm => hv v (List.mem_append_right _ hm)) hvi,
      Stmt.lifted_of_like (hopen hb) _ _ h.body (fun _ => hbody) hsound hvb⟩

variable (hw : w.context = w'.context)

include hw

private theorem context_enter : (l.enter w).context = (l'.enter w').context := by
  have ho : w.openScope.context = w'.openScope.context.widen .outside :=
    congrArg Context.openScope hw
  unfold ForLoop.enter
  obtain ⟨hl, hl'⟩ | ⟨s, s', hl, hl', hs⟩ := Paired.of_rel h.initial <;> rw [hl, hl']
  · exact hw
  · exact Stmt.widen_resolve ho hs (absurd · Setting.outside_ne)

private theorem lifted_initial (hv : ∀ v ∈ l.initialVisits w, v.Sound D)
    (hv' : ∀ v ∈ l'.initialVisits w', v.Recorded D) :
    Option.Rel (Stmt.Lifted D .outside) l.initial l'.initial := by
  have ho : w.openScope.context = w'.openScope.context.widen .outside :=
    congrArg Context.openScope hw
  unfold initialVisits at hv hv'
  obtain ⟨hl, hl'⟩ | ⟨s, s', hl, hl', hs⟩ := Paired.of_rel h.initial <;> rw [hl, hl']
  · exact .none
  · rw [hl] at hv
    rw [hl'] at hv'
    exact .some (Stmt.lifted_of_like ho _ _ hs (absurd · Setting.outside_ne) hv hv')

/-- What is recorded for the statements that the loop stands for belongs together with what is
recorded for a copy of the loop that is resolved as a loop. -/
theorem lifted (hbody : l.body.declares? = none) {always : Site}
    (hv : ∀ v ∈ (l.desugared always).visits w, v.Sound D) (hv' : ∀ v ∈ l'.visits w', v.Recorded D) :
    l.Lifted D l' := by
  have henter := h.context_enter hw
  rw [visits_desugared] at hv
  unfold visits at hv'
  simp only [List.mem_append, List.mem_cons] at hv hv'
  have hcondition : ∀ v ∈ clauseVisits (l.enter w) l.condition, v.Sound D := by
    unfold holds at hv
    cases hl : l.condition with
    | none => exact fun _ hm => absurd hm List.not_mem_nil
    | some e =>
      rw [hl] at hv
      exact fun v hm => hv v (.inr (.inl hm))
  -- The body and the increment start where the condition has been resolved.
  let u := (l.holds always).resolve (l.enter w)
  have hu : u.context = (l'.enter w').context := ((l.holds always).context_resolve _).trans henter
  have hround := h.lifted_round hbody (u := u) (i := resolveClause (l'.enter w') l'.condition)
    (b := resolveClause (resolveClause (l'.enter w') l'.condition) l'.increment) (by simp [hu])
      (by simp [hu])
    (fun v hm => hv v (.inr (.inr (.inr hm)))) (fun v hm => hv' v (.inl (.inr hm))) fun v hm =>
      hv' v (.inr hm)
  exact {
    initial :=
      h.lifted_initial hw (fun v hm => hv v (.inl hm)) fun v hm => hv' v (.inl (.inl (.inl hm)))
    condition :=
      lifted_clause henter h.condition hcondition fun v hm => hv' v (.inl (.inl (.inr hm)))
    increment := hround.1
    body := hround.2 }

end Copy

end ForLoop

end Lox
