import Lox.Proofs.Scoping.Exactness
import Lox.Proofs.Session.Static
/-!
# What is found in a program before it runs

The distances of a program are those to the nearest scopes, and its errors are the rules that it
breaks, each of them once. The walk leaves behind nothing but the names that a statement
declares where it stands.
-/

namespace Lox

/-! ### What the walk leaves behind -/

/-- The walk `u` is where `w` was, but its innermost scope, if there is one, has
the names `xs` too. -/
structure Walk.Extends (w : Walk) (xs : List String) (u : Walk) : Prop where
  function : u.function = w.function
  classKind : u.classKind = w.classKind
  global : w.scopes = [] → u.scopes = []
  innermost : ∀ t ts, w.scopes = t :: ts →
    ∃ s, u.scopes = s :: ts ∧ ∀ x, s.find? x = if x ∈ xs then some true else t.find? x

/-- The names are added to the innermost scope alone. -/
theorem Context.scopes_defineAll (t : Scope) (ts : List Scope) (k : FunctionKind) (l : ClassKind)
    (xs : List String) :
    ∃ s : Scope, (⟨t :: ts, k, l⟩ : Context).defineAll xs = ⟨s :: ts, k, l⟩ ∧
      ∀ x, s.find? x = if x ∈ xs then some true else t.find? x := by
  induction xs generalizing t with
  | nil => exact ⟨t, rfl, by simp⟩
  | cons y ys ih =>
    obtain ⟨s, hs, hf⟩ := ih (t.insert y true)
    refine ⟨s, hs, fun x => ?_⟩
    rw [hf x, Table.find?_insert]
    by_cases hx : x ∈ ys
    · simp [hx]
    · by_cases hy : y = x
      · simp [hy]
      · simp [hx, hy, Ne.symm hy]

private theorem Context.defineAll_global (k : FunctionKind) (l : ClassKind) (xs : List String) :
    (⟨[], k, l⟩ : Context).defineAll xs = ⟨[], k, l⟩ := by
  induction xs with
  | nil => rfl
  | cons x xs ih => exact ih

private theorem Stmt.extends_resolve (s : Stmt) (w : Walk) :
    w.Extends s.declaredNames (s.resolve w) := by
  have hc := s.context_resolve_eq w
  obtain ⟨ss, k, l, d, es⟩ := w
  cases ss with
  | nil =>
    have hk := hc.trans (Context.defineAll_global k l _)
    exact ⟨congrArg Context.function hk, congrArg Context.classKind hk,
      fun _ => congrArg Context.scopes hk, nofun⟩
  | cons t ts =>
    obtain ⟨s, hs, hf⟩ := Context.scopes_defineAll t ts k l s.declaredNames
    have hk := hc.trans hs
    refine ⟨congrArg Context.function hk, congrArg Context.classKind hk, nofun, ?_⟩
    rintro _ _ ⟨⟩
    exact ⟨s, congrArg Context.scopes hk, hf⟩

/-! ### Distances -/

namespace Parsed

/-- Whatever the tokens are, no two expressions that are read have the same number. -/
theorem nodup_ids (tokens : List Token) (firstId : Nat) :
    ((Stmt.sightsAll (ofTokens tokens firstId).program.body).filterMap Sight.id?).Nodup := by
  have hc : (Cursor.ofTokens tokens firstId).Ok (fun _ => True) fun _ => True :=
    ⟨fun _ _ => ⟨trivial, fun _ _ => trivial⟩, trivial, fun _ _ => trivial⟩
  exact (fit_ofTokens hc).1.nodup

end Parsed

namespace Resolved

/-- What is recorded in the visits is all that is found. -/
theorem get?_distances_iff {body : List Stmt}
    (hd : ((Stmt.sightsAll body).filterMap Sight.id?).Nodup) (i d : Nat) :
    (ofStmts body).distances.get? i = some d ↔ ∃ v ∈ Stmt.visitsAll .start body, v.Records i d := by
  have hv : ((Stmt.visitsAll .start body).filterMap Visit.id?).Nodup := by
    rw [← Stmt.map_sight_visitsAll .start body, List.filterMap_map] at hd
    exact hd
  rw [eq_findings]
  constructor
  · intro hget
    by_cases hi : i ∈ (Stmt.visitsAll .start body).filterMap Visit.id?
    · obtain ⟨v, hmem, hid⟩ := List.mem_filterMap.mp hi
      rw [Findings.get?_foldl _ hv hmem hid (Distances.get?_empty i)] at hget
      exact ⟨v, hmem, hid, hget⟩
    · rw [Findings.get?_foldl_of_notMem _ _ hi, Distances.get?_empty] at hget
      cases hget
  · rintro ⟨v, hmem, hid, hdist⟩
    rw [Findings.get?_foldl _ hv hmem hid (Distances.get?_empty i), hdist]

end Resolved

theorem Program.agree (p : Program) : Agree (Stmt.visitsAll .start p.body) p.occurrences :=
  Stmt.agreeAll Context.Reflects.start p.body

/-- The distances in a program that was read from tokens are just those from the expressions that
name variables to the nearest scopes that hold the names, and each part of a program leaves the walk
where it was, apart from the names it declares in the innermost scope. -/
theorem Parsed.distances_lexical (tokens : List Token) (firstId : Nat) :
    let p := (Parsed.ofTokens tokens firstId).program
    (∀ i d, (Resolved.ofStmts p.body).distances.get? i = some d ↔
      ∃ o ∈ p.occurrences, o.Records i d) ∧
      (∀ (s : Stmt) (w : Walk), w.Extends s.declaredNames (s.resolve w)) ∧
      ∀ (e : Expr) (w : Walk), (e.resolve w).context = w.context := by
  intro p
  refine ⟨fun i d => ?_, Stmt.extends_resolve, fun e w => e.context_resolve w⟩
  rw [Resolved.get?_distances_iff (Parsed.nodup_ids tokens firstId)]
  exact p.agree.records i d

/-! ### Errors -/

namespace Diagnostics

theorem kept_foldl_push (s : Diagnostics) (ds : List Diagnostic) (hs : s.kept.length ≤ limit) :
    (ds.foldl push s).kept = (s.kept ++ ds).take limit := by
  induction ds generalizing s with
  | nil => rw [List.foldl_nil, List.append_nil, List.take_of_length_le hs]
  | cons d ds ih =>
    rw [List.foldl_cons]
    by_cases hl : s.kept.length < limit
    · have hp : (s.push d).kept = s.kept ++ [d] := if_pos hl
      rw [ih, hp, List.append_assoc, List.singleton_append]
      rw [hp, List.length_append, List.length_singleton]
      omega
    · have hp : (s.push d).kept = s.kept := if_neg hl
      have he : s.kept.length = limit := by omega
      rw [ih _ (hp ▸ hs), hp, List.take_append_of_le_length he.ge,
        List.take_append_of_le_length he.ge]

/-- The sink of one stage keeps the first errors and counts them all. -/
theorem ofErrors_eq {ε : Type} [Reportable ε] (f : SourceFile) (es : List (Located ε)) :
    ofErrors f es = ⟨(es.map (Diagnostic.ofError f)).take limit, es.length⟩ := by
  have hk := kept_foldl_push empty (es.map (Diagnostic.ofError f)) (Nat.zero_le _)
  have ht := total_foldl_push empty (es.map (Diagnostic.ofError f))
  rw [List.length_map] at ht
  exact congrArg₂ mk hk (ht.trans (Nat.zero_add es.length))

end Diagnostics

/-- The errors that are found in a program are just the rules that it breaks, and all of
them are counted. -/
theorem Program.errors_eq_violations (p : Program) (f : SourceFile) :
    (Resolved.ofStmts p.body).errors = p.violations ∧
      Diagnostics.ofErrors f (Resolved.ofStmts p.body).errors =
        ⟨(p.violations.map (Diagnostic.ofError f)).take Diagnostics.limit,
          p.violations.length⟩ := by
  have he : (Resolved.ofStmts p.body).errors = p.violations := by
    rw [Resolved.eq_findings]
    exact p.agree.errors
  refine ⟨he, ?_⟩
  rw [he, Diagnostics.ofErrors_eq]

/-- Six rules that are broken, each where no other hides it. -/
example :
    (Parsed.ofTokens
      (Lexed.ofText "\x7b var a; var a; \x7b var b = b; \x7d \x7d return; fun f() \x7b this; \x7d
    class C <
      C \x7b init() \x7b return super.x; \x7d \x7d").tokens 0).program.violations.map Located.item =
      [.alreadyDeclared, .selfReferentialInitializer, .returnOutsideFunction, .thisOutsideClass,
        .selfInheritance,
        .returnValueFromInitializer] := by
  decide +kernel

end Lox
