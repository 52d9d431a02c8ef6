import Lox.Proofs.Scoping.Sound
import Lox.Proofs.Scoping.Spots
/-!
# Where `super` stands

In a method of a class that inherits, `super` is visited with the scope of the superclass just
outside the scope of the receiver, so its distance is one more than the number of scopes of the
method around it. Outside of classes, and in classes that do not inherit, it is an error.
-/

namespace Lox

/-- Whether the nearest scope that holds `super` lies `n` scopes out, in a class of kind `k`. -/
structure Context.Parented (c : Context) (n : Option Nat) (k : ClassKind) : Prop where
  nearest : c.nearest? "super" = n
  kind : c.classKind = k

namespace Context.Parented

variable {c : Context} {n : Option Nat} {k : ClassKind}

theorem define (h : c.Parented n k) {o : Option String} (ho : ∀ x, o = some x → Plain x) :
    (c.define o).Parented n k := by
  obtain ⟨ss, f, l⟩ := c
  cases o with
  | none => rwa [define_none]
  | some x =>
    cases ss with
    | nil => exact h
    | cons s ss => exact ⟨(nearest?_insert_of_ne true (ho x rfl).2).trans h.nearest, h.kind⟩

theorem declare {w : Walk} (h : w.context.Parented n k) {x : Ident} (hx : Plain x.name) :
    (w.declare x).context.Parented n k := by
  unfold Walk.declare
  split
  · exact h
  · rename_i s ss hs
    have hc : w.context = ⟨s :: ss, w.function, w.classKind⟩ := by rw [Walk.context, hs]
    split
    · exact h
    · rw [hc] at h
      exact ⟨(nearest?_insert_of_ne false hx.2).trans h.nearest, h.kind⟩

theorem openScope (h : c.Parented n k) : c.openScope.Parented (n.map (· + 1)) k :=
  ⟨by rw [nearest?_openScope, h.nearest], h.kind⟩

end Context.Parented

/-- The scope of the receiver holds no `super`. -/
theorem Context.parented_inClass (c : Context) (x : String) (p : Superclass) :
    (c.inClass x (some p)).Parented (some 1) .subclass := by
  refine ⟨?_, rfl⟩
  rw [inClass_some, nearest?_cons, nearest?_cons]
  simp [Table.contains, Table.find?_insert]

namespace Spot

/-- Whether `super` stands at the spot. -/
def IsSuper (p : Spot) : Prop := ∃ t x, p.sight = .expr (.super t x)

/-- What the context of a spot is in code whose context has `super` at the distance `n`
and is of kind `k`. -/
def Stands (p : Spot) (n : Option Nat) (k : ClassKind) (c : Context) : Prop :=
  match p.side with
  | .here => c.Parented (n.map (· + p.depth)) k
  | .method true => c.Parented (some (p.depth + 1)) .subclass
  | .method false => c.classKind = .plain

/-- Whether `super` is visited in its context if it stands at the spot. -/
def Visited (p : Spot) (l : List Visit) (n : Option Nat) (k : ClassKind) : Prop :=
  p.IsSuper → ∃ c, ⟨p.sight, c⟩ ∈ l ∧ p.Stands n k c

variable {p : Spot} {l m : List Visit} {n : Option Nat} {k : ClassKind}

theorem Visited.mono (h : p.Visited l n k) (hl : ∀ v ∈ l, v ∈ m) : p.Visited m n k := by
  intro hp
  obtain ⟨c, hc, hs⟩ := h hp
  exact ⟨c, hl _ hc, hs⟩

theorem visited_here {v : Sight} (h : ∀ t x, v ≠ .expr (.super t x)) : (here v).Visited l n k := by
  rintro ⟨t, x, hv⟩
  exact absurd hv (h t x)

theorem Visited.deeper (h : p.Visited l (n.map (· + 1)) k) : p.deeper.Visited l n k := by
  obtain ⟨side, d, v⟩ := p
  intro hp
  rw [IsSuper, sight_deeper] at hp
  obtain ⟨c, hc, hs⟩ := h hp
  refine ⟨c, (sight_deeper _).symm ▸ hc, ?_⟩
  cases side with
  | method b => cases b <;> exact hs
  | here =>
    refine ⟨hs.nearest.trans ?_, hs.kind⟩
    cases n with
    | none => rfl
    | some n => exact congrArg some (Nat.add_right_comm n 1 d)

private theorem Visited.inSubclass (h : p.Visited l (some 1) .subclass) :
    (p.inMethod true).Visited l n k := by
  obtain ⟨side, d, v⟩ := p
  intro hp
  rw [IsSuper, sight_inMethod] at hp
  obtain ⟨c, hc, hs⟩ := h hp
  refine ⟨c, (sight_inMethod _ _).symm ▸ hc, ?_⟩
  cases side with
  | method b => cases b <;> exact hs
  | here => exact ⟨hs.nearest.trans (congrArg some (Nat.add_comm 1 d)), hs.kind⟩

private theorem Visited.inPlain {n' : Option Nat} (h : p.Visited l n' .plain) :
    (p.inMethod false).Visited l n k := by
  obtain ⟨side, d, v⟩ := p
  intro hp
  rw [IsSuper, sight_inMethod] at hp
  obtain ⟨c, hc, hs⟩ := h hp
  refine ⟨c, (sight_inMethod _ _).symm ▸ hc, ?_⟩
  cases side with
  | method b => cases b <;> exact hs
  | here => exact hs.kind

end Spot

variable {n : Option Nat} {k : ClassKind}

theorem Expr.visited_of_mem_spots {w : Walk} (h : w.context.Parented n k) (e : Expr) {p : Spot}
    (hp : p ∈ e.spots) : p.Visited (e.visits w) n k := by
  obtain ⟨v, hv, rfl⟩ := List.mem_map.mp hp
  obtain ⟨node, hn, rfl⟩ := List.mem_map.mp hv
  intro _
  refine ⟨w.context, List.mem_map_of_mem hn, h.nearest.trans ?_, h.kind⟩
  cases n <;> rfl

private theorem Walk.parented_declareAll {w : Walk} (h : w.context.Parented n k) (ps : List Ident)
    (hp : ∀ v ∈ w.parameterVisits ps, v.sight.Proper) : (w.declareAll ps).context.Parented n k := by
  induction ps generalizing w with
  | nil => exact h
  | cons x ps ih =>
    refine ih ?_ fun v hv => hp v (List.mem_cons_of_mem _ hv)
    rw [context_declare_define]
    exact h.define fun y hy => Option.some.inj hy ▸ hp _ List.mem_cons_self

mutual

theorem Stmt.visited_of_mem_spots {w : Walk} {n : Option Nat} {k : ClassKind}
    (h : w.context.Parented n k) :
    (s : Stmt) → (∀ v ∈ s.visits w, v.Faultless) → ∀ p ∈ s.spots, p.Visited (s.visits w) n k
  | .expr _ e, _, p, hp => e.visited_of_mem_spots h hp
  | .print _ e, _, p, hp => by
    rcases List.mem_append.mp hp with hp | hp
    · exact (e.visited_of_mem_spots h hp).mono fun v hv => List.mem_append_left _ hv
    · rw [List.mem_singleton.mp hp]
      exact Spot.visited_here nofun
  | .var _ x none, _, p, hp => by
    rw [List.mem_singleton.mp hp]
    exact Spot.visited_here nofun
  | .var _ x (some e), hv, p, hp => by
    rcases List.mem_cons.mp hp with rfl | hp
    · exact Spot.visited_here nofun
    · have hx : Plain x.name := (hv _ List.mem_cons_self).proper
      exact (e.visited_of_mem_spots (h.declare hx) hp).mono fun v hv => List.mem_cons_of_mem _ hv
  | .block _ b, hv, p, hp => by
    obtain ⟨q, hq, rfl⟩ := List.mem_map.mp hp
    exact (Stmt.visited_of_mem_spotsAll (w := w.openScope) h.openScope b hv q hq).deeper
  | .ifElse _ c s none, hv, p, hp => by
    simp only [Stmt.visits, Stmt.spots, List.mem_append, List.mem_cons] at hv hp
    have hc : (c.resolve w).context.Parented n k := by rwa [c.context_resolve]
    rcases hp with hp | rfl | hp
    · exact (c.visited_of_mem_spots h hp).mono fun v hv => List.mem_append_left _ hv
    · exact Spot.visited_here nofun
    · exact (s.visited_of_mem_spots hc (fun v hs => hv v (.inr (.inr hs))) p hp).mono fun v hv =>
        List.mem_append_right _ (List.mem_cons_of_mem _ hv)
  | .ifElse _ c s (some t), hv, p, hp => by
    simp only [Stmt.visits, Stmt.spots, List.mem_append, List.mem_cons] at hv hp
    have hc : (c.resolve w).context.Parented n k := by rwa [c.context_resolve]
    have hs : (s.resolve (c.resolve w)).context.Parented n k := by
      rw [s.context_resolve _ fun v hs => (hv v (.inl (.inr (.inr hs)))).proper,
        show s.declares? = none from (hv _ (.inl (.inr (.inl rfl)))).proper, Context.define_none]
      exact hc
    rcases hp with (hp | rfl | hp) | rfl | hp
    · exact (c.visited_of_mem_spots h hp).mono fun v hv => by simp [Stmt.visits, hv]
    · exact Spot.visited_here nofun
    · exact (s.visited_of_mem_spots hc (fun v hs => hv v (.inl (.inr (.inr hs)))) p hp).mono
        fun v hv => by
        simp [Stmt.visits, hv]
    · exact Spot.visited_here nofun
    · exact (t.visited_of_mem_spots hs (fun v ht => hv v (.inr (.inr ht))) p hp).mono fun v hv => by
        simp [Stmt.visits, hv]
  | .whileLoop _ c s, hv, p, hp => by
    simp only [Stmt.visits, Stmt.spots, List.mem_append, List.mem_cons] at hv hp
    have hc : (c.resolve w).context.Parented n k := by rwa [c.context_resolve]
    rcases hp with hp | rfl | hp
    · exact (c.visited_of_mem_spots h hp).mono fun v hv => List.mem_append_left _ hv
    · exact Spot.visited_here nofun
    · exact (s.visited_of_mem_spots hc (fun v hs => hv v (.inr (.inr hs))) p hp).mono fun v hv =>
        List.mem_append_right _ (List.mem_cons_of_mem _ hv)
  | .function d, hv, p, hp => by
    rcases List.mem_cons.mp hp with rfl | hp
    · exact Spot.visited_here nofun
    · have hx : Plain d.name.name := (hv _ List.mem_cons_self).proper
      have hd : ((w.declare d.name).define d.name.name).context.Parented n k := by
        rw [Walk.context_declare_define]
        exact h.define fun y hy => Option.some.inj hy ▸ hx
      exact (d.visited_of_mem_spots hd .function
        (fun v hd => hv v (List.mem_cons_of_mem _ hd)) p hp).mono
        fun v hv => List.mem_cons_of_mem _ hv
  | .classDecl _ x none ms, hv, p, hp => by
    rcases List.mem_cons.mp hp with rfl | hp
    · exact Spot.visited_here nofun
    · obtain ⟨q, hq, rfl⟩ := List.mem_map.mp hp
      have hc :
          (w.enterClass x none).context.Parented
            ((w.enterClass x none).context.nearest? "super") .plain :=
        ⟨rfl, congrArg Context.classKind (w.context_enterClass x none)⟩
      have ih := FunctionDecl.visited_of_mem_spotsAll (w := w.enterClass x none) hc ms
        (fun v hm => hv v (List.mem_append_right _ hm)) q hq
      exact ih.inPlain.mono fun v hv => List.mem_append_right _ hv
  | .classDecl _ x (some s) ms, hv, p, hp => by
    simp only [Stmt.spots, List.cons_append, List.mem_cons, List.mem_append, List.mem_map] at hp
    rcases hp with rfl | ⟨v, hs, rfl⟩ | ⟨q, hq, rfl⟩
    · exact Spot.visited_here nofun
    · simp only [Superclass.sights, List.mem_cons, List.not_mem_nil, or_false] at hs
      rcases hs with rfl | rfl <;> exact Spot.visited_here nofun
    · have hc : (w.enterClass x (some s)).context.Parented (some 1) .subclass := by
        rw [Walk.context_enterClass]
        exact Context.parented_inClass _ _ _
      have ih := FunctionDecl.visited_of_mem_spotsAll (w := w.enterClass x (some s)) hc ms
        (fun v hm => hv v (List.mem_append_right _ hm)) q hq
      exact ih.inSubclass.mono fun v hv => List.mem_append_right _ hv
  | .returning _ k none, _, p, hp => by
    rw [List.mem_singleton.mp hp]
    exact Spot.visited_here nofun
  | .returning _ k' (some e), _, p, hp => by
    rcases List.mem_cons.mp hp with rfl | hp
    · exact Spot.visited_here nofun
    · refine (e.visited_of_mem_spots ?_ hp).mono fun v hv => List.mem_cons_of_mem _ hv
      rwa [Walk.context_checkReturn]

theorem Stmt.visited_of_mem_spotsAll {w : Walk} {n : Option Nat} {k : ClassKind}
    (h : w.context.Parented n k) :
    (ss : List Stmt) → (∀ v ∈ Stmt.visitsAll w ss, v.Faultless) →
    ∀ p ∈ Stmt.spotsAll ss, p.Visited (Stmt.visitsAll w ss) n k
  | [], _, p, hp => by cases hp
  | s :: ss, hv, p, hp => by
    have hs : ∀ v ∈ s.visits w, v.Faultless := fun v hs => hv v (List.mem_append_left _ hs)
    rcases List.mem_append.mp hp with hp | hp
    · exact (s.visited_of_mem_spots h hs p hp).mono fun v hv => List.mem_append_left _ hv
    · have hss : (s.resolve w).context.Parented n k := by
        rw [s.context_resolve w fun v hv => (hs v hv).proper]
        exact h.define (Stmt.plain_declares hs)
      exact (Stmt.visited_of_mem_spotsAll hss ss
        (fun v hs => hv v (List.mem_append_right _ hs)) p hp).mono
        fun v hv => List.mem_append_right _ hv

theorem FunctionDecl.visited_of_mem_spots {w : Walk} {n : Option Nat} {k : ClassKind}
    (h : w.context.Parented n k) : (d : FunctionDecl) → (kind : FunctionKind) →
    (∀ v ∈ d.visits w kind, v.Faultless) → ∀ p ∈ d.spots, p.Visited (d.visits w kind) n k
  | .mk _ ps b _, kind, hv, p, hp => by
    obtain ⟨q, hq, rfl⟩ := List.mem_map.mp hp
    have hopen : { w with function := kind }.openScope.context.Parented (n.map (· + 1)) k :=
      Context.Parented.openScope (c := { w.context with function := kind }) ⟨h.nearest, h.kind⟩
    have hbody :=
      Walk.parented_declareAll hopen ps fun v hps => (hv v (List.mem_append_left _ hps)).proper
    rcases List.mem_append.mp hq with hq | hq
    · obtain ⟨x, -, rfl⟩ := List.mem_map.mp hq
      exact (Spot.visited_here (v := .declaration x) nofun).deeper
    · exact ((Stmt.visited_of_mem_spotsAll hbody b
        (fun v hb => hv v (List.mem_append_right _ hb)) q hq).mono
        fun v hv => List.mem_append_right _ hv).deeper

theorem FunctionDecl.visited_of_mem_spotsAll {w : Walk} {n : Option Nat} {k : ClassKind}
    (h : w.context.Parented n k) : (ds : List FunctionDecl) →
    (∀ v ∈ FunctionDecl.visitsMethods w ds, v.Faultless) →
    ∀ p ∈ FunctionDecl.spotsAll ds, p.Visited (FunctionDecl.visitsMethods w ds) n k
  | [], _, p, hp => by cases hp
  | d :: ds, hv, p, hp => by
    have hd : ∀ v ∈ d.visits w (.ofMethod d.name.name), v.Faultless :=
      fun v hd => hv v (List.mem_append_left _ hd)
    rcases List.mem_append.mp hp with hp | hp
    · exact (d.visited_of_mem_spots h _ hd p hp).mono fun v hv => List.mem_append_left _ hv
    · have hds : (d.resolve w (.ofMethod d.name.name)).context.Parented n k := by
        rwa [d.context_resolve]
      exact (FunctionDecl.visited_of_mem_spotsAll hds ds
        (fun v hs => hv v (List.mem_append_right _ hs)) p
        hp).mono fun v hv => List.mem_append_right _ hv

end

end Lox
