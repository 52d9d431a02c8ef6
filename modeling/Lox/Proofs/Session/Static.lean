import Lox.Session.Basic
import Lox.Proofs.Reading.Text
import Lox.Proofs.Scoping.Agreement
/-!
# What is known of a source before it runs

All that stands in the program of a source starts where a token of its text starts, and the numbers
of its expressions are new. If the source is accepted, every visit of the walk is sound. What a
diagnostic of the source is about is a lexical error of its text or starts where a token starts.
-/

namespace Lox

/-- Whether a token of the text starts at the position. -/
def SourceFile.StartsToken (f : SourceFile) (p : Position) : Prop :=
  ∃ t ∈ (Lexed.ofText f.text).tokens, t.span.first = p

theorem SourceFile.StartsToken.line? {f : SourceFile} {p : Position} (h : f.StartsToken p) :
    ∃ l, f.line? p.line = some l := by
  obtain ⟨t, ht, rfl⟩ := h
  exact f.line?_of_inText ((Lexed.good_ofText f.text).tokens t ht).start

/-! ### Sinks -/

namespace Diagnostics

theorem mem_push {s : Diagnostics} {d e : Diagnostic} (h : d ∈ (s.push e).kept) :
    d ∈ s.kept ∨ d = e := by
  unfold push at h
  dsimp only at h
  split at h
  · simpa using h
  · exact .inl h

theorem mem_foldl_push {s : Diagnostics} {d : Diagnostic} {ds : List Diagnostic}
    (h : d ∈ (ds.foldl push s).kept) : d ∈ s.kept ∨ d ∈ ds := by
  induction ds generalizing s with
  | nil => exact .inl h
  | cons e ds ih =>
    rcases ih h with h | h
    · rcases mem_push h with h | rfl
      · exact .inl h
      · exact .inr List.mem_cons_self
    · exact .inr (List.mem_cons_of_mem _ h)

theorem mem_extend {s t : Diagnostics} {d : Diagnostic} (h : d ∈ (s.extend t).kept) :
    d ∈ s.kept ∨ d ∈ t.kept := mem_foldl_push h

theorem mem_ofErrors {ε : Type} [Reportable ε] {f : SourceFile} {es : List (Located ε)}
    {d : Diagnostic} (h : d ∈ (ofErrors f es).kept) : ∃ e ∈ es, d = .ofError f e := by
  rcases mem_foldl_push h with h | h
  · cases h
  · obtain ⟨e, he, rfl⟩ := List.mem_map.mp h
    exact ⟨e, he, rfl⟩

theorem total_foldl_push (s : Diagnostics) (ds : List Diagnostic) :
    (ds.foldl push s).total = s.total + ds.length := by
  induction ds generalizing s with
  | nil => rfl
  | cons d ds ih =>
    have hp : (s.push d).total = s.total + 1 := rfl
    rw [List.foldl_cons, ih, hp, List.length_cons]
    omega

end Diagnostics

/-! ### Resolving -/

/-- The errors of a visit are reported at spans of what is visited. -/
theorem Visit.span_mem_of_mem_errors {v : Visit} {e : Located ScopeError} (h : e ∈ v.errors) :
    e.span ∈ v.sight.spans := by
  obtain ⟨sight, c⟩ := v
  cases sight with
  | expr e =>
    cases e with
    | var s x =>
      by_cases hu : c.isUndefined x.name = true
      · simp [Visit.errors, hu] at h
        simp [h, Sight.spans]
      · simp [Visit.errors, hu] at h
    | this s =>
      by_cases hk : c.classKind = .none
      · simp [Visit.errors, hk] at h
        simp [h, Sight.spans]
      · simp [Visit.errors, hk] at h
    | super s x =>
      cases hk : c.classKind <;> simp [Visit.errors, hk] at h <;> simp [h, Sight.spans]
    | literal | grouping | unary | binary | logical | assign | call | get | set => cases h
  | declaration x =>
    by_cases hh : c.holdsHere x.name = true
    · simp [Visit.errors, hh] at h
      simp [h, Sight.spans]
    · simp [Visit.errors, hh] at h
  | inheritance x p =>
    by_cases hx : p.name.name = x.name
    · simp [Visit.errors, hx] at h
      simp [h, Sight.spans]
    · simp [Visit.errors, hx] at h
  | returning k b =>
    have hk : e.span = k := by
      simp only [Visit.errors, List.mem_append] at h
      rcases h with h | h <;> split at h <;> simp at h <;> rw [h]
    simp [hk, Sight.spans]
  | print | branch => cases h

namespace Analysis

/-- The stops of the walk in the program. -/
def visits (a : Analysis) : List Visit := Stmt.visitsAll .start a.program.body

theorem map_sight_visits (a : Analysis) :
    a.visits.map Visit.sight = Stmt.sightsAll a.program.body :=
  Stmt.map_sight_visitsAll _ _

theorem filterMap_id?_visits (a : Analysis) :
    a.visits.filterMap Visit.id? = (Stmt.sightsAll a.program.body).filterMap Sight.id? := by
  rw [← map_sight_visits, List.filterMap_map]
  rfl

theorem fit_ofFile (f : SourceFile) (firstId : Nat) :
    Fit f.StartsToken Plain firstId (ofFile f firstId).nextId
      (Stmt.sightsAll (ofFile f firstId).program.body) ∧
      ∀ e ∈ (Parsed.ofTokens (Lexed.ofText f.text).tokens firstId).errors,
      f.StartsToken e.span.first := by
  refine Parsed.fit_ofTokens (Cursor.ok_ofTokens (fun t ht => ⟨⟨t, ht, rfl⟩, ?_⟩) ?_ firstId)
  · exact ((Lexed.good_ofText f.text).tokens t ht).named
  · exact Lexed.exists_eof _ _

variable {f : SourceFile} {firstId : Nat} {v : Visit}

theorem startsToken_of_mem_visits (hv : v ∈ (ofFile f firstId).visits) {t : Span}
    (ht : t ∈ v.sight.spans) : f.StartsToken t.first := by
  refine (fit_ofFile f firstId).1.start v.sight ?_ t ht
  rw [← map_sight_visits]
  exact List.mem_map_of_mem hv

theorem id_of_mem_visits (hv : v ∈ (ofFile f firstId).visits) {i : Nat} (hi : v.id? = some i) :
    firstId ≤ i ∧ i < (ofFile f firstId).nextId := by
  refine (fit_ofFile f firstId).1.range i ?_
  rw [← filterMap_id?_visits]
  exact List.mem_filterMap.mpr ⟨v, hv, hi⟩

/-- No distances are recorded for other numbers. -/
theorem get?_distances_of_notMem {i : Nat} (hi : i < firstId ∨ (ofFile f firstId).nextId ≤ i) :
    (ofFile f firstId).distances.get? i = none := by
  have hd : (ofFile f firstId).distances =
      (Resolved.ofStmts (ofFile f firstId).program.body).distances := rfl
  rw [hd, Resolved.eq_findings, Findings.get?_foldl_of_notMem _ _ ?_, Distances.get?_empty]
  intro hmem
  obtain ⟨v, hv, hvi⟩ := List.mem_filterMap.mp hmem
  have := id_of_mem_visits hv hvi
  omega

/-- A source without errors has no errors of names. -/
theorem errors_resolved (h : (ofFile f firstId).errors.hasErrors = false) :
    (Resolved.ofStmts (ofFile f firstId).program.body).errors = [] := by
  have ht : (ofFile f firstId).errors.total = 0 := by simpa [Diagnostics.hasErrors] using h
  unfold ofFile ofTokens at ht
  dsimp only at ht
  rw [Diagnostics.total_foldl_push, List.length_map] at ht
  exact List.eq_nil_of_length_eq_zero (Nat.eq_zero_of_add_eq_zero_left ht)

/-- In an accepted source every stop of the walk is sound. -/
theorem sound_visits (h : (ofFile f firstId).errors.hasErrors = false) :
    ∀ v ∈ (ofFile f firstId).visits, v.Sound (ofFile f firstId).distances := by
  obtain ⟨hfit, -⟩ := fit_ofFile f firstId
  refine Resolved.sound_visits (fun v hv => hfit.proper v.sight ?_) ?_ (errors_resolved h)
  · rw [← map_sight_visits]
    exact List.mem_map_of_mem hv
  · have hn := hfit.nodup
    rwa [← filterMap_id?_visits] at hn

/-- What the diagnostics of a source are about. -/
theorem mem_errors {d : Diagnostic} (h : d ∈ (ofFile f firstId).errors.kept) :
    (∃ e ∈ (Lexed.ofText f.text).errors, d = .ofError f e) ∨
      d.file = f.name ∧ d.sourceLine = (f.line? d.span.first.line).getD "" ∧
      f.StartsToken d.span.first := by
  unfold ofFile ofTokens at h
  rcases Diagnostics.mem_foldl_push h with h | h
  · rcases Diagnostics.mem_extend h with h | h
    · rcases Diagnostics.mem_extend h with h | h
      · cases h
      · exact .inl (Diagnostics.mem_ofErrors h)
    · obtain ⟨e, he, rfl⟩ := Diagnostics.mem_ofErrors h
      exact .inr ⟨rfl, rfl, (fit_ofFile f firstId).2 e he⟩
  · obtain ⟨e, he, rfl⟩ := List.mem_map.mp h
    refine .inr ⟨rfl, rfl, ?_⟩
    rw [Resolved.eq_findings] at he
    obtain ⟨v, hv, hev⟩ := List.mem_flatMap.mp he
    exact startsToken_of_mem_visits hv (Visit.span_mem_of_mem_errors hev)

end Analysis

end Lox
