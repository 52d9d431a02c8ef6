import Lox.Eval.Run
import Lox.Proofs.Reading.Sights
import Lox.Proofs.Scoping.Sound
import Lox.Proofs.Store.Sound
/-!
# Frames and scopes of functions and classes

The frame of a call binds what the scope of the parameters holds, and the methods of a class are
declared in frames that mirror the scopes in which they were visited.
-/

namespace Lox

/-! ### Tables -/

theorem mem_zip_of_find?_bindParameters {xs : List Ident} {vs : List Value} {x : String} {v : Value}
    (h : (Run.bindParameters xs vs).find? x = some v) :
    ∃ p ∈ xs.zip vs, p.1.name = x ∧ p.2 = v := by
  have hfold : ∀ (l : List (Ident × Value)) (t : Table Value),
      (l.foldl (fun t p => t.insert p.1.name p.2) t).find? x = some v →
      t.find? x = some v ∨ ∃ p ∈ l, p.1.name = x ∧ p.2 = v := by
    intro l
    induction l with
    | nil => exact fun t ht => .inl ht
    | cons p l ih =>
      intro t ht
      rcases ih _ ht with ht | ⟨q, hq, hx⟩
      · rw [Table.find?_insert] at ht
        split at ht
        · rename_i hp
          exact .inr ⟨p, List.mem_cons_self, hp, Option.some.inj ht⟩
        · exact .inl ht
      · exact .inr ⟨q, List.mem_cons_of_mem _ hq, hx⟩
  rcases hfold (xs.zip vs) .empty h with ht | hp
  · cases ht
  · exact hp

theorem mem_of_find?_bindParameters {xs : List Ident} {vs : List Value} {x : String} {v : Value}
    (h : (Run.bindParameters xs vs).find? x = some v) : ∃ y ∈ xs, y.name = x := by
  obtain ⟨p, hp, hx, -⟩ := mem_zip_of_find?_bindParameters h
  exact ⟨p.1, (List.of_mem_zip hp).1, hx⟩

theorem find?_bindParameters_of_plain {ps : List Ident} (hp : ∀ x ∈ ps, Plain x.name)
    (vs : List Value) (hx : ¬ Plain x) : (Run.bindParameters ps vs).find? x = none := by
  cases hf : (Run.bindParameters ps vs).find? x with
  | none => rfl
  | some v =>
    obtain ⟨y, hy, rfl⟩ := mem_of_find?_bindParameters hf
    exact absurd (hp y hy) hx

/-- As many arguments as parameters bind every parameter, and nothing else. -/
theorem isSome_find?_bindParameters {xs : List Ident} {vs : List Value} (h : vs.length = xs.length)
    (x : String) :
    ((Run.bindParameters xs vs).find? x).isSome ↔ (parameterScope xs).find? x = some true := by
  have hfold : ∀ (t : Table Value) (c : Scope), ((t.find? x).isSome ↔ c.find? x = some true) →
      ((((xs.zip vs).foldl (fun t p => t.insert p.1.name p.2) t).find? x).isSome ↔
        (xs.foldl (fun t x => t.insert x.name true) c).find? x = some true) := by
    induction xs generalizing vs with
    | nil => exact fun t c htc => htc
    | cons y xs ih =>
      cases vs with
      | nil => cases h
      | cons v vs =>
        intro t c htc
        refine ih (Nat.succ.inj h) _ _ ?_
        rw [Table.find?_insert, Table.find?_insert]
        split
        · simp
        · exact htc
  exact hfold .empty .empty (by simp)

theorem mem_of_find?_methodTable {f : FrameId} {ms : List FunctionDecl} {x : String} {c : Closure}
    (h : (Run.methodTable f ms).find? x = some c) :
    ∃ d ∈ ms, c = ⟨d, f, d.name.name = initializerName⟩ := by
  have hfold : ∀ t : Table Closure,
      (ms.foldl (fun t d => t.insert d.name.name ⟨d, f, d.name.name = initializerName⟩) t).find? x =
        some c →
      t.find? x = some c ∨ ∃ d ∈ ms, c = ⟨d, f, d.name.name = initializerName⟩ := by
    clear h
    induction ms with
    | nil => exact fun t ht => .inl ht
    | cons d ms ih =>
      intro t ht
      rcases ih _ ht with ht | ⟨e, he, hc⟩
      · rw [Table.find?_insert] at ht
        split at ht
        · exact .inr ⟨d, List.mem_cons_self, (Option.some.inj ht).symm⟩
        · exact .inl ht
      · exact .inr ⟨e, List.mem_cons_of_mem _ he, hc⟩
  exact (hfold .empty h).resolve_left fun ht => by cases ht

namespace Store

private theorem methodIn?_congr {s t : Store} (h : t.classes = s.classes) (x : String) (n : Nat)
    (c : ClassId) : t.methodIn? x n c = s.methodIn? x n c := by
  induction n generalizing c with
  | zero => rfl
  | succ n ih => simp only [methodIn?, h, funext ih]

/-- Only the classes matter. -/
theorem method?_congr {s t : Store} (h : t.classes = s.classes) (c : ClassId) (x : String) :
    t.method? c x = s.method? c x := by
  rw [method?, method?, h, methodIn?_congr h]

end Store

/-! ### Stores -/

/-- A name that is declared without an error is new in its scope. -/
theorem Walk.find?_of_declaration {w : Walk} {x : Ident}
    (h : (⟨.declaration x, w.context⟩ : Visit).errors = []) {c : Scope} {cs : List Scope}
    (hc : w.scopes = c :: cs) : c.find? x.name = none := by
  simpa [Visit.errors, Context.holdsHere, Walk.context, hc, Table.contains] using h

/-- The walk at the body of a function. -/
def Walk.enterFunction (u : Walk) (kind : FunctionKind) (ps : List Ident) : Walk :=
  { u with function := kind }.openScope.declareAll ps

variable {V : Visit → Prop} {s : Store} {f : FrameId}

namespace Store

theorem Mirrors.declare_walk {w : Walk} {x : Ident} (h : s.Mirrors f w.scopes)
    (he : (⟨.declaration x, w.context⟩ : Visit).errors = []) :
    s.Mirrors f (w.declare x).scopes := by
  unfold Walk.declare
  split
  · exact h
  · rename_i c cs hc
    have hx := w.find?_of_declaration he hc
    rw [if_neg (by simp [Table.contains, hx])]
    rw [hc] at h
    exact h.declare hx

/-- A function that is declared in a frame can be called as soon as its name is bound. -/
theorem Sound.declareFunction (h : s.Sound V) {w : Walk} (hm : s.Mirrors f w.scopes)
    {d : FunctionDecl} (hx : Plain d.name.name)
    (hd : ∀ v ∈ d.visits ((w.declare d.name).define d.name.name) .function, V v) :
    ((s.addFunction ⟨d, f, false⟩).2.define f d.name.name
      (s.addFunction ⟨d, f, false⟩).1).Sound V := by
  let t := (s.addFunction ⟨d, f, false⟩).2
  have hst : Grows (· ≠ f) s t := .of_frames_eq rfl
  have hf : f < t.frames.size := hm.covers.lt_size h.size
  have htm : t.Mirrors f w.scopes := ⟨hm.covers.mono hst, hm.exact⟩
  have hg := hst.trans (Grows.define t f d.name.name (s.addFunction ⟨d, f, false⟩).1)
  refine h.of_grows hg ?_ ?_ (fun c hc => ?_) fun c hc => .inl hc
  · intro g v hv
    rw [bound?_define, if_neg fun hh => hx.1 hh.2.1] at hv
    exact h.receiver g v hv
  · intro g v hv
    rw [bound?_define, if_neg fun hh => hx.2 hh.2.1] at hv
    exact h.parent g v hv
  · rcases Array.mem_push.mp hc with hc | rfl
    · exact .inl hc
    · refine .inr ⟨⟨_, _, _, rfl, ?_, hd⟩, fun hi => by cases hi⟩
      rw [w.scopes_declare_define]
      exact (htm.define hf d.name.name _).covers

/-- The frame of a call. -/
theorem Sound.addParameters (h : s.Sound V) {xs : List Ident} (hx : ∀ x ∈ xs, Plain x.name)
    (vs : List Value) (scope : FrameId) :
    (s.addFrame ⟨Run.bindParameters xs vs, some scope⟩).2.Sound V := by
  refine h.addFrame _ (fun v hv => ?_) fun v hv => ?_
  · obtain ⟨y, hy, hxy⟩ := mem_of_find?_bindParameters hv
    exact absurd hxy (hx y hy).1
  · obtain ⟨y, hy, hxy⟩ := mem_of_find?_bindParameters hv
    exact absurd hxy (hx y hy).2

/-- A call of a function runs its body in a new frame that mirrors the scope of its parameters. -/
theorem Sound.enter (h : s.Sound V) (hp : ∀ v, V v → v.sight.Proper) {d : FunctionDecl} {u : Walk}
    {kind : FunctionKind} {vs : List Value} (hc : s.Covers f u.scopes)
    (hV : ∀ v ∈ d.visits u kind, V v) (hn : vs.length = d.parameters.length) :
    (s.addFrame ⟨Run.bindParameters d.parameters vs, some f⟩).2.Sound V ∧
      (s.addFrame ⟨Run.bindParameters d.parameters vs, some f⟩).2.Mirrors s.frames.size
        (u.enterFunction kind d.parameters).scopes ∧
      ∀ v ∈ Stmt.visitsAll (u.enterFunction kind d.parameters) d.body, V v := by
  obtain ⟨name, ps, body, span⟩ := d
  have hps : ∀ x ∈ ps, Plain x.name := by
    intro x hx
    have hmem : Sight.declaration x ∈
        ({ u with function := kind }.openScope.parameterVisits ps).map Visit.sight := by
      rw [Walk.map_sight_parameterVisits]
      exact List.mem_map_of_mem hx
    obtain ⟨v, hv, hvx⟩ := List.mem_map.mp hmem
    have hproper := hp v (hV v (List.mem_append_left _ hv))
    rwa [hvx] at hproper
  have hscopes : (u.enterFunction kind ps).scopes = parameterScope ps :: u.scopes :=
    Walk.scopes_declareAll rfl ps
  refine ⟨h.addParameters hps vs f, ?_, fun v hv => hV v (List.mem_append_right _ hv)⟩
  rw [FunctionDecl.parameters, hscopes]
  exact .addFrame hc fun x => isSome_find?_bindParameters hn x

/-- The frame of the methods of a class that inherits. -/
theorem Sound.addSuper (h : s.Sound V) (c : ClassId) (f : FrameId) :
    (s.addFrame ⟨Table.empty.insert "super" (.cls c), some f⟩).2.Sound V := by
  refine h.addFrame _ (fun v hv => ?_) fun v hv => ?_
  · rw [Table.find?_insert, if_neg (by decide)] at hv
    cases hv
  · rw [Table.find?_insert_self] at hv
    exact ⟨c, (Option.some.inj hv).symm⟩

theorem Covers.addSuper {cs : List Scope} (h : s.Covers f cs) (c : ClassId) :
    (s.addFrame ⟨Table.empty.insert "super" (.cls c), some f⟩).2.Covers s.frames.size
      (Table.empty.insert "super" true :: cs) := by
  refine (Mirrors.addFrame h fun x => ?_).covers
  rw [Table.find?_insert, Table.find?_insert]
  split <;> simp

/-- Methods are declared in the frames around the scope that holds `this`. -/
theorem Covers.methods {w : Walk} {cs : List Scope} (h : s.Covers f cs)
    (hw : w.scopes = Table.empty.insert "this" true :: cs) {ms : List FunctionDecl}
    (hV : ∀ v ∈ FunctionDecl.visitsMethods w ms, V v) :
    ∀ x m, (Run.methodTable f ms).find? x = some m → m.Method V s := by
  intro x m hm
  obtain ⟨d, hd, rfl⟩ := mem_of_find?_methodTable hm
  obtain ⟨u, hu, hv⟩ := FunctionDecl.exists_visits_of_mem (w := w) hd
  refine ⟨u, _, cs, ?_, h, fun v hvu => hV v (hv v hvu)⟩
  exact (congrArg Context.scopes hu).trans hw

end Store

end Lox
