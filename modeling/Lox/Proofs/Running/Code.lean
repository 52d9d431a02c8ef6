import Lox.Proofs.Likeness.Store
import Lox.Proofs.Running.Invariant
import Lox.Proofs.Running.Frames
import Lox.Proofs.Store.Receivers
/-!
# The code in a store

The functions and methods in a store stand in the programs that were run. So what is true of
everything in these programs is true of everything in the code of the store, at all times.
-/

namespace Lox

/-- Everything in the code of the store has the property `P`. -/
def Condition.code (P : Sight → Prop) (d : Distances) : Condition where
  Good s := s.Declares fun c => ∀ v ∈ c.sights, P v
  At _ _ := True
  Fits _ _ p := P p.sight
  Offers _ m _ := ∀ v ∈ m.decl.sights, P v
  Allows _ := True
  distances := d

variable {P : Sight → Prop}

theorem Stmt.forall_spotsAll {ss : List Stmt} :
    (∀ p ∈ Stmt.spotsAll ss, P p.sight) ↔ ∀ v ∈ Stmt.sightsAll ss, P v := by
  rw [← Stmt.map_sight_spotsAll, List.forall_mem_map]

theorem FunctionDecl.forall_spots {d : FunctionDecl} :
    (∀ p ∈ d.spots, P p.sight) ↔ ∀ v ∈ d.sights, P v := by
  rw [← FunctionDecl.map_sight_spots, List.forall_mem_map]

private theorem FunctionDecl.forall_body {d : FunctionDecl} (h : ∀ v ∈ d.sights, P v) :
    ∀ v ∈ Stmt.sightsAll d.body, P v := by
  obtain ⟨x, ps, b, t⟩ := d
  exact fun v hv => h v (List.mem_append_right _ hv)

theorem Table.mem_entries_of_find? {α : Type} {t : Table α} {x : String} {a : α}
    (h : t.find? x = some a) : ∃ e ∈ t.entries, e.2 = a := by
  obtain ⟨es⟩ := t
  change findIn x es = some a at h
  induction es with
  | nil => cases h
  | cons e es ih =>
    obtain ⟨y, b⟩ := e
    unfold findIn at h
    split at h
    · cases h
      exact ⟨_, List.mem_cons_self, rfl⟩
    · obtain ⟨e, he, ha⟩ := ih h
      exact ⟨e, List.mem_cons_of_mem _ he, ha⟩

private theorem Table.mem_entries_insert {α : Type} {t : Table α} {x : String} {a : α}
    {e : String × α} (h : e ∈ (t.insert x a).entries) : e ∈ t.entries ∨ e.2 = a := by
  obtain ⟨es⟩ := t
  change e ∈ insertIn x a es at h
  induction es with
  | nil =>
    rw [List.mem_singleton.mp h]
    exact .inr rfl
  | cons e' es ih =>
    obtain ⟨y, b⟩ := e'
    unfold insertIn at h
    split at h
    · rcases List.mem_cons.mp h with rfl | h
      · exact .inr rfl
      · exact .inl (List.mem_cons_of_mem _ h)
    · rcases List.mem_cons.mp h with rfl | h
      · exact .inl List.mem_cons_self
      · exact (ih h).imp_left (List.mem_cons_of_mem _)

/-- The methods in the table of a class are those of its declaration. -/
theorem Run.decl_of_mem_methodTable {f : FrameId} {ms : List FunctionDecl} {e : String × Closure}
    (h : e ∈ (Run.methodTable f ms).entries) : e.2.decl ∈ ms := by
  have hfold : ∀ (ms : List FunctionDecl) (t : Table Closure),
      e ∈ (ms.foldl (fun t d => t.insert d.name.name ⟨d, f, d.name.name =
        initializerName⟩) t).entries →
      e ∈ t.entries ∨ e.2.decl ∈ ms := by
    intro ms
    induction ms with
    | nil => exact fun t he => .inl he
    | cons d ms ih =>
      intro t he
      rcases ih _ he with he | he
      · rcases Table.mem_entries_insert he with he | he
        · exact .inl he
        · rw [he]
          exact .inr List.mem_cons_self
      · exact .inr (List.mem_cons_of_mem _ he)
  exact (hfold ms .empty h).resolve_left fun he => by cases he

namespace Store.Declares

variable {s : Store} {P : FunctionDecl → Prop}

theorem addFunction (h : s.Declares P) {c : Closure} (hc : P c.decl) :
    (s.addFunction c).2.Declares P where
  functions d hd := by
    rcases Array.mem_push.mp hd with hd | rfl
    · exact h.functions d hd
    · exact hc
  methods := h.methods

theorem addClass (h : s.Declares P) {k : Class} (hk : ∀ e ∈ k.methods.entries, P e.2.decl) :
    (s.addClass k).2.Declares P where
  functions := h.functions
  methods c hc := by
    rcases Array.mem_push.mp hc with hc | rfl
    · exact h.methods c hc
    · exact hk

theorem method? (h : s.Declares P) {c : ClassId} {x : String} {m : Closure}
    (hm : s.method? c x = some m) : P m.decl := by
  obtain ⟨k, cls, -, hcls, y, hy⟩ := Store.hasMethod_of_method? hm
  obtain ⟨e, he, rfl⟩ := Table.mem_entries_of_find? hy
  exact h.methods cls (Array.mem_of_getElem? hcls) e he

end Store.Declares

namespace Condition

variable {d : Distances} {s t : Store}

theorem leads_code (h : (code P d).Good t) : (code P d).Leads s t :=
  ⟨h, fun _ _ => True.intro, fun _ _ hp => hp⟩

/-- The methods of a class have what is known of their spots, which are those of the class. -/
theorem code_methodTable {f : FrameId} {ms : List FunctionDecl} {b : Bool}
    (hms : ∀ p ∈ FunctionDecl.spotsAll ms, P (p.inMethod b).sight) :
    ∀ e ∈ (Run.methodTable f ms).entries, ∀ v ∈ e.2.decl.sights, P v := fun _ he =>
  FunctionDecl.forall_spots.mp fun p hp =>
    p.sight_inMethod b ▸ hms p (FunctionDecl.mem_spotsAll (Run.decl_of_mem_methodTable he) hp)

theorem invariant_code (P : Sight → Prop) (d : Distances) : (code P d).Invariant where
  define _ h _ _ := leads_code ⟨h.functions, h.methods⟩
  assign _ h _ _ := leads_code ⟨h.functions, h.methods⟩
  block h _ := ⟨leads_code ⟨h.functions, h.methods⟩, True.intro,
    fun p hp => show P p.sight from p.sight_deeper ▸ hp⟩
  function h _ hd _ := leads_code (h.addFunction (FunctionDecl.forall_spots.mp hd))
  functions _ _ _ _ := True.intro
  spots h hc := FunctionDecl.forall_spots.mpr (h.functions _ hc)
  call _ h hc := ⟨leads_code ⟨h.functions, h.methods⟩, True.intro,
    Stmt.forall_spotsAll.mpr (FunctionDecl.forall_body (FunctionDecl.forall_spots.mp hc))⟩
  plain h _ hms _ := leads_code (h.addClass (code_methodTable hms))
  parent _ h _ := leads_code ⟨h.functions, h.methods⟩
  subclass _ h _ hms _ :=
    leads_code (Store.Declares.addClass ⟨h.functions, h.methods⟩ (code_methodTable hms))
  addInstance _ h := leads_code ⟨h.functions, h.methods⟩
  setField _ _ _ h := leads_code ⟨h.functions, h.methods⟩
  offersOwn h _ hm := h.method? hm
  offersSuper h _ _ _ _ hm := h.method? hm
  offered _ _ _ _ := True.intro
  bind h hm := ⟨leads_code ⟨h.functions, h.methods⟩, FunctionDecl.forall_spots.mpr hm⟩
  bindValue h hm := leads_code (Store.Declares.addFunction ⟨h.functions, h.methods⟩ hm)

end Condition

end Lox
