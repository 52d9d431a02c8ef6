import Lox.Eval.Variables
import Lox.Proofs.Running.Primitive
import Lox.Proofs.Store.Chains
/-!
# Two ways to a variable

A search from a frame outward and access at a distance do the same with the frame that they find.
Where the links of the frames come to an end, they find the same frame if the distance is the least
at which a frame binds the name. What is done at a distance depends on the frame there alone, and
changes no more than the one variable.
-/

namespace Lox

/-! ### Changing one variable -/

namespace Store

variable {s : Store} {f g : FrameId} {fs : List FrameId} {d : Nat} {x : String}

/-- `t` is `s` but for the variable `x` of the frame `f`, which is `v` there. -/
structure Rebinds (s : Store) (f : FrameId) (x : String) (v : Value) (t : Store) : Prop where
  bound : t.bound? f x = some v
  others : ∀ g y, (g = f → y ≠ x) → t.bound? g y = s.bound? g y
  enclosing : ∀ g, t.enclosing? g = s.enclosing? g
  size : t.frames.size = s.frames.size
  rest : { t with frames := s.frames } = s

private theorem rebinds_define (h : (s.bound? f x).isSome) (v : Value) :
    s.Rebinds f x v (s.define f x v) where
  bound := by rw [bound?_define, if_pos ⟨rfl, rfl, lt_of_bound? h⟩]
  others g y hy := by
    rw [bound?_define, if_neg]
    rintro ⟨rfl, rfl, -⟩
    exact hy rfl rfl
  enclosing := enclosing?_define s f x v
  size := size_define s f x v
  rest := rfl

/-! ### The frame that is found -/

theorem getAt?_eq_bind (s : Store) (f : FrameId) (d : Nat) (x : String) :
    s.getAt? f d x = (s.bindingAt? f d x).bind (s.bound? · x) := by
  rw [getAt?, bindingAt?]
  cases s.ancestor? d f with
  | none => rfl
  | some g => cases hb : s.bound? g x <;> simp [Option.filter, hb]

theorem bindingAt?_eq_filter (h : Chain s.enclosing? f fs) (d : Nat) (x : String) :
    s.bindingAt? f d x = (fs[d]?).filter fun g => (s.bound? g x).isSome := by
  rw [bindingAt?, ancestor?_eq_getElem? h]

theorem bindingAt?_eq_some (h : Chain s.enclosing? f fs) (hg : fs[d]? = some g)
    (hb : (s.bound? g x).isSome) : s.bindingAt? f d x = some g := by
  rw [bindingAt?_eq_filter h, Option.filter_eq_some_iff]
  exact ⟨hg, hb⟩

theorem bindingAt?_eq_none (h : Chain s.enclosing? f fs)
    (hb : ∀ g, fs[d]? = some g → s.bound? g x = none) : s.bindingAt? f d x = none := by
  rw [bindingAt?_eq_filter h, Option.filter_eq_none_iff]
  intro g hg
  rw [hb g hg]
  exact Bool.false_ne_true

/-- A search goes as far as the least distance at which a frame binds the name. -/
theorem nearest?_eq_some (h : Chain s.enclosing? f fs) (hg : fs[d]? = some g)
    (hb : (s.bound? g x).isSome) (hleast : ∀ e < d, ∀ k, fs[e]? = some k → s.bound? k x = none) :
    s.nearest? f x = some g := by
  obtain ⟨hd, hg⟩ := List.getElem?_eq_some_iff.mp hg
  rw [nearest?_eq_find? h, List.find?_eq_some_iff_getElem]
  refine ⟨hb, d, hd, hg, fun e he => ?_⟩
  rw [hleast e he _ (List.getElem?_eq_getElem (Nat.lt_trans he hd))]
  rfl

private theorem nearest?_eq_none (h : Chain s.enclosing? f fs)
    (hb : ∀ g ∈ fs, s.bound? g x = none) : s.nearest? f x = none := by
  rw [nearest?_eq_find? h, List.find?_eq_none]
  intro g hg
  rw [hb g hg]
  exact Bool.false_ne_true

end Store

/-! ### What is done with it -/

namespace Machine

variable {m : Machine} {f g : FrameId} {found : Option FrameId} {d : Nat} {x : String} {span : Span}
  {read read' : Run Value} {write write' : Value → Run Unit}

/-- Reading and writing are of the variable `x` of the frame `g`: reading gives its value and
changes nothing, and writing changes nothing else. -/
structure Accesses (m : Machine) (g : FrameId) (x : String) (read : Run Value)
    (write : Value → Run Unit) : Prop where
  reads : ∃ v, m.store.bound? g x = some v ∧ read m = .done v m
  writes : ∀ v, ∃ t, m.store.Rebinds g x v t ∧ write v m = .done () { m with store := t }

/-- Neither reading nor writing finds a variable `x`: both fault at `span` and change nothing. -/
structure Misses (m : Machine) (x : String) (span : Span) (read : Run Value)
    (write : Value → Run Unit) : Prop where
  reads : read m = .fault ⟨.undefinedVariable x, span⟩ m
  writes : ∀ v, write v m = .fault ⟨.undefinedVariable x, span⟩ m
  message : Reportable.message (FaultCause.undefinedVariable x) = s!"Undefined variable '{x}'."

/-- Reading and writing do no more than to look for the variable `x` in the frame that
was found, if any. -/
structure Through (m : Machine) (found : Option FrameId) (x : String) (span : Span)
    (read : Run Value) (write : Value → Run Unit) : Prop where
  read : read m = Run.orFault (found.bind (m.store.bound? · x)) (.undefinedVariable x) span m
  write : ∀ v, write v m =
    Run.storeOrFault (found.map (m.store.define · x v)) (.undefinedVariable x) span m

namespace Through

theorem accesses (h : m.Through (some g) x span read write) (hb : (m.store.bound? g x).isSome) :
    m.Accesses g x read write where
  reads := by
    obtain ⟨v, hv⟩ := Option.isSome_iff_exists.mp hb
    refine ⟨v, hv, ?_⟩
    rw [h.read, Option.bind_some, hv]
    rfl
  writes v := ⟨_, Store.rebinds_define hb v, h.write v⟩

theorem misses (h : m.Through none x span read write) : m.Misses x span read write :=
  ⟨h.read, h.write, rfl⟩

theorem agrees (h : m.Through found x span read write) (h' : m.Through found x span read' write') :
    read m = read' m ∧ ∀ v, write v m = write' v m :=
  ⟨h.read.trans h'.read.symm, fun v => (h.write v).trans (h'.write v).symm⟩

end Through

theorem through_nearest? (m : Machine) (f : FrameId) (x : String) (span : Span) :
    m.Through (m.store.nearest? f x) x span (Run.getFrom f x span) (Run.assignFrom f x · span) :=
  ⟨rfl, fun _ => rfl⟩

theorem through_bindingAt? (m : Machine) (f : FrameId) (d : Nat) (x : String) (span : Span) :
    m.Through (m.store.bindingAt? f d x) x span (Run.getAt f d x span)
      (Run.assignAt f d x · span) where
  read := by
    rw [← Store.getAt?_eq_bind]
    rfl
  write _ := rfl

private theorem through_distance (m : Machine) (id : Nat) (x : String) (span : Span) :
    m.Through ((m.distances.get? id).elim (m.store.nearest? globals x)
      (m.store.bindingAt? m.frame · x)) x span
      (Run.lookUp id x span) (Run.assign id x · span) where
  read := by
    rw [Run.lookUp_eq, Run.valueOf?]
    cases m.distances.get? id with
    | none => rfl
    | some d => exact congrArg (Run.orFault · _ span m) (m.store.getAt?_eq_bind m.frame d x)
  write v := by
    unfold Run.assign
    cases m.distances.get? id with
    | none =>
      dsimp only [Option.elim]
      cases m.store.nearest? globals x <;> rfl
    | some d =>
      dsimp only [Option.elim]
      cases m.store.bindingAt? m.frame d x <;> rfl

/-- In a running program, a variable that has a distance is accessed at that distance from the
current frame, and any other by a search from the frame of the global variables. -/
theorem lookUp_agrees (m : Machine) (id : Nat) (x : String) (span : Span) :
    match m.distances.get? id with
    | some d => Run.lookUp id x span m = Run.getAt m.frame d x span m ∧
        ∀ v, Run.assign id x v span m = Run.assignAt m.frame d x v span m
    | none => Run.lookUp id x span m = Run.getFrom globals x span m ∧
        ∀ v, Run.assign id x v span m = Run.assignFrom globals x v span m := by
  have h := m.through_distance id x span
  cases hd : m.distances.get? id with
  | none =>
    rw [hd] at h
    exact h.agrees (m.through_nearest? globals x span)
  | some d =>
    rw [hd] at h
    exact h.agrees (m.through_bindingAt? m.frame d x span)

/-- Where the links come to an end, let `fs` be the frames from `f` outward, so that the frame
`d` links out is at the place `d`. A search for `x` does the same as access at the least
distance at which a frame binds `x`. If no frame does, search and access at any distance fault.
And access at a distance is access to the frame there, or faults if that frame does not bind `x`
or there is none. These are the two ways of a running program: it accesses a variable that has a
distance at that distance from the current frame, and searches for any other from the frame of
the global variables. -/
theorem search_agrees (hw : WellFounded fun g f => m.store.enclosing? f = some g) (f : FrameId) :
    (∃ fs, Chain m.store.enclosing? f fs ∧ ∀ (x : String) (span : Span),
      (∀ (d : Nat) (g : FrameId), fs[d]? = some g → (m.store.bound? g x).isSome →
        (∀ e < d, ∀ k, fs[e]? = some k → m.store.bound? k x = none) →
          Run.getFrom f x span m = Run.getAt f d x span m ∧
          (∀ v, Run.assignFrom f x v span m = Run.assignAt f d x v span m) ∧
          m.Accesses g x (Run.getFrom f x span) (Run.assignFrom f x · span)) ∧
      ((∀ g ∈ fs, m.store.bound? g x = none) →
        m.Misses x span (Run.getFrom f x span) (Run.assignFrom f x · span) ∧
        ∀ e, m.Misses x span (Run.getAt f e x span) (Run.assignAt f e x · span)) ∧
      ∀ e,
        (∀ g, fs[e]? = some g → (m.store.bound? g x).isSome →
          m.Accesses g x (Run.getAt f e x span) (Run.assignAt f e x · span)) ∧
        ((∀ g, fs[e]? = some g → m.store.bound? g x = none) →
          m.Misses x span (Run.getAt f e x span) (Run.assignAt f e x · span))) ∧
    ∀ (id : Nat) (x : String) (span : Span),
      match m.distances.get? id with
      | some d => Run.lookUp id x span m = Run.getAt m.frame d x span m ∧
          ∀ v, Run.assign id x v span m = Run.assignAt m.frame d x v span m
      | none => Run.lookUp id x span m = Run.getFrom globals x span m ∧
          ∀ v, Run.assign id x v span m = Run.assignFrom globals x v span m := by
  refine ⟨?_, m.lookUp_agrees⟩
  obtain ⟨fs, hchain⟩ := Chain.exists_of_wellFounded hw f
  refine ⟨fs, hchain, fun x span => ?_⟩
  have hfrom := m.through_nearest? f x span
  have hat := fun e => m.through_bindingAt? f e x span
  have hmisses : ∀ e, (∀ g, fs[e]? = some g → m.store.bound? g x = none) →
      m.Misses x span (Run.getAt f e x span) (Run.assignAt f e x · span) := by
    intro e hb
    have h := hat e
    rw [Store.bindingAt?_eq_none hchain hb] at h
    exact h.misses
  refine ⟨fun d g hg hb hleast => ?_, fun hb => ⟨?_, fun e => ?_⟩,
    fun e => ⟨fun g hg hb => ?_, hmisses e⟩⟩
  · -- Both ways find the frame `g`.
    have hd := hat d
    rw [Store.bindingAt?_eq_some hchain hg hb] at hd
    rw [Store.nearest?_eq_some hchain hg hb hleast] at hfrom
    obtain ⟨hread, hwrite⟩ := hfrom.agrees hd
    exact ⟨hread, hwrite, hfrom.accesses hb⟩
  · rw [Store.nearest?_eq_none hchain hb] at hfrom
    exact hfrom.misses
  · exact hmisses e fun g hg => hb g (List.mem_of_getElem? hg)
  · have h := hat e
    rw [Store.bindingAt?_eq_some hchain hg hb] at h
    exact h.accesses hb

/-- Frames one of which has a younger one around it: from frame 1 outward they are 1, 2 and 0, and
the last two bind the same name. -/
def shadowing : Machine :=
  { Machine.initial .unlimited Machine.defaultMaxDepth fun _ => 0 with
    store := { Store.empty with
      frames := #[⟨Table.empty.insert "a" (.bool false), none⟩, ⟨.empty, some 2⟩,
        ⟨Table.empty.insert "a" (.bool true), some 0⟩] } }

theorem search_agrees_shadowing :
    (WellFounded fun g f => shadowing.store.enclosing? f = some g) ∧ ∀ span,
      Run.getFrom 1 "a" span shadowing = .done (.bool true) shadowing ∧
      Run.getAt 1 1 "a" span shadowing = .done (.bool true) shadowing ∧
      Run.getAt 1 2 "a" span shadowing = .done (.bool false) shadowing ∧
      (∃ t, t.bound? 2 "a" = some .nil ∧ t.bound? 0 "a" = some (.bool false) ∧
        Run.assignFrom 1 "a" .nil span shadowing = .done () { shadowing with store := t } ∧
        Run.assignAt 1 1 "a" .nil span shadowing = .done () { shadowing with store := t }) ∧
      Run.getAt 1 0 "a" span shadowing = .fault ⟨.undefinedVariable "a", span⟩ shadowing ∧
      Run.assignFrom 1 "b" .nil span shadowing = .fault ⟨.undefinedVariable "b", span⟩ shadowing ∧
      Run.assignAt 1 3 "b" .nil span shadowing =
        .fault ⟨.undefinedVariable "b", span⟩ shadowing := by
  have hw : WellFounded fun g f => shadowing.store.enclosing? f = some g := by
    refine Chain.wellFounded_of_lt (fun f => (3 - f) % 3) fun f g h => ?_
    match f with
    | 0 => cases h
    | 1 =>
      obtain rfl := Option.some.inj h
      decide
    | 2 =>
      obtain rfl := Option.some.inj h
      decide
    | f + 3 => cases h
  refine ⟨hw, fun span => ?_⟩
  obtain ⟨⟨fs, hchain, haccess⟩, -⟩ := search_agrees hw 1
  obtain rfl : fs = [1, 2, 0] := hchain.unique (.link rfl (.link rfl (.last rfl)))
  obtain ⟨hleast, -, hat⟩ := haccess "a" span
  obtain ⟨-, hnone, -⟩ := haccess "b" span
  have hfirst : ∀ e < 1, ∀ k, [1, 2, 0][e]? = some k → shadowing.store.bound? k "a" = none := by
    intro e he k hk
    obtain rfl := Nat.lt_one_iff.mp he
    obtain rfl := Option.some.inj hk
    rfl
  obtain ⟨hread, hwrite, haccesses⟩ := hleast 1 2 rfl rfl hfirst
  obtain ⟨v, hv, hget⟩ := haccesses.reads
  obtain rfl := Option.some.inj hv
  obtain ⟨t, ht, hassign⟩ := haccesses.writes .nil
  obtain ⟨w, hw, hshadowed⟩ := ((hat 2).1 0 rfl rfl).reads
  obtain rfl := Option.some.inj hw
  have hinner := (hat 0).2 fun g hg => by
    obtain rfl := Option.some.inj hg
    rfl
  obtain ⟨hsearch, hdistance⟩ := hnone (by decide)
  exact ⟨hget, hread ▸ hget, hshadowed,
    ⟨t, ht.bound, ht.others 0 "a" nofun, hassign, hwrite .nil ▸ hassign⟩,
    hinner.reads, hsearch.writes .nil, (hdistance 3).writes .nil⟩

end Machine

end Lox
