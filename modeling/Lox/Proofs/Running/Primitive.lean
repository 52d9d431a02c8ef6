import Lox.Eval.Run
import Lox.Proofs.Store.Sound
/-!
# What the parts of the evaluator keep

Everything the evaluator does by itself, between two recursive calls, keeps the store sound, stays
in its frame, and reports its faults at spans of the node it works for.
-/

namespace Lox

/-- `n` comes after `m` in a run: its store is sound, nothing has run in the frames with `K`, and
the frame and the distances are those of `m`. -/
structure Machine.Keeps (V : Visit → Prop) (K : FrameId → Prop) (m n : Machine) : Prop where
  sound : n.store.Sound V
  grows : Store.Grows K m.store n.store
  frame : n.frame = m.frame
  distances : n.distances = m.distances

variable {V : Visit → Prop} {K : FrameId → Prop} {α β : Type}

namespace Machine.Keeps

variable {m n o : Machine}

theorem refl (h : m.store.Sound V) : m.Keeps V K m := ⟨h, .refl _, rfl, rfl⟩

theorem trans (h : m.Keeps V K n) (h' : n.Keeps V K o) : m.Keeps V K o :=
  ⟨h'.sound, h.grows.trans h'.grows, h'.frame.trans h.frame, h'.distances.trans h.distances⟩

theorem weaken {K' : FrameId → Prop} (h : m.Keeps V K n) (hk : ∀ f, K' f → K f) :
    m.Keeps V K' n :=
  ⟨h.sound, h.grows.weaken hk, h.frame, h.distances⟩

/-- What the frames mirror, they mirror after something that does not run in the current one. -/
theorem mirrors (h : m.Keeps V K n) (hs : m.store.Sound V) {cs : List Scope}
    (hm : m.store.Mirrors m.frame cs) (hk : K m.frame) : n.store.Mirrors n.frame cs := by
  rw [h.frame]
  exact hm.mono h.grows (hm.covers.lt_size hs.size) hk

end Machine.Keeps

namespace Run

/-- `r`, started in `m`, gives a result with `Q`, or a fault at one of the spans, and keeps the
machine sound in both cases. -/
def Keeps (V : Visit → Prop) (K : FrameId → Prop) (spans : List Span) (r : Run α) (m : Machine)
    (Q : α → Machine → Prop) : Prop :=
  match r m with
  | .done a n => m.Keeps V K n ∧ Q a n
  | .fault f n => m.Keeps V K n ∧ f.span ∈ spans
  | .outOfFuel => False

variable {spans : List Span} {m : Machine} {r : Run α} {Q R : α → Machine → Prop}

namespace Keeps

theorem imp (h : r.Keeps V K spans m Q) (hq : ∀ a n, Q a n → R a n) : r.Keeps V K spans m R := by
  unfold Keeps at *
  cases hr : r m with
  | done a n =>
    rw [hr] at h
    exact ⟨h.1, hq a n h.2⟩
  | fault e n =>
    rw [hr] at h
    exact h
  | outOfFuel =>
    rw [hr] at h
    exact h

theorem bind {f : α → Run β} {R : β → Machine → Prop} (h : r.Keeps V K spans m Q)
    (hf : ∀ a n, m.Keeps V K n → Q a n → (f a).Keeps V K spans n R) :
    (r >>= f).Keeps V K spans m R := by
  change Keeps V K spans (Run.bind r f) m R
  unfold Keeps Run.bind at *
  cases hr : r m with
  | done a n =>
    rw [hr] at h
    have ha := hf a n h.1 h.2
    dsimp only
    cases hfa : f a n with
    | done b o =>
      rw [hfa] at ha
      exact ⟨h.1.trans ha.1, ha.2⟩
    | fault e o =>
      rw [hfa] at ha
      exact ⟨h.1.trans ha.1, ha.2⟩
    | outOfFuel =>
      rw [hfa] at ha
      exact ha
  | fault e n =>
    rw [hr] at h
    exact h
  | outOfFuel =>
    rw [hr] at h
    exact h

theorem pure (hm : m.store.Sound V) {a : α} (hq : Q a m) : Keeps V K spans (pure a) m Q :=
  ⟨.refl hm, hq⟩

theorem fault (hm : m.store.Sound V) (cause : FaultCause) {span : Span} (hs : span ∈ spans) :
    Keeps V K spans (Run.fault cause span) m Q := ⟨.refl hm, hs⟩

theorem ask (hm : m.store.Sound V) (f : Machine → α) :
    Keeps V K spans (Run.ask f) m fun a n => a = f m ∧ n = m := ⟨.refl hm, rfl, rfl⟩

theorem orFault (hm : m.store.Sound V) (x : Option α) (cause : FaultCause) {span : Span}
    (hs : span ∈ spans) :
    Keeps V K spans (Run.orFault x cause span) m fun a n => x = some a ∧ n = m := by
  cases x with
  | none => exact fault hm cause hs
  | some a => exact pure hm ⟨rfl, rfl⟩

theorem ofExcept (hm : m.store.Sound V) (x : Except FaultCause α) {span : Span}
    (hs : span ∈ spans) : Keeps V K spans (Run.ofExcept x span) m fun _ n => n = m := by
  cases x with
  | error cause => exact fault hm cause hs
  | ok a => exact pure hm rfl

theorem update (f : Store → α × Store) (hs : (f m.store).2.Sound V)
    (hg : Store.Grows K m.store (f m.store).2) :
    Keeps V K spans (Run.update f) m
      fun a n => a = (f m.store).1 ∧ n = { m with store := (f m.store).2 } :=
  ⟨⟨hs, hg, rfl, rfl⟩, rfl, rfl⟩

theorem define (hm : m.store.Sound V) {x : String} (hx : Plain x) (v : Value) :
    Keeps V (· ≠ m.frame) spans (Run.define x v) m
      fun _ n => n = { m with store := m.store.define m.frame x v } :=
  ⟨⟨hm.define hx _ v, .define _ _ x v, rfl, rfl⟩, rfl⟩

theorem printLine (hm : m.store.Sound V) (s : String) {span : Span} (hs : span ∈ spans) :
    Keeps V K spans (Run.printLine s span) m fun _ n => n.store = m.store := by
  unfold Keeps Run.printLine
  cases h : m.output.write (s ++ "\n") with
  | mk b o => cases b <;> exact ⟨⟨hm, .refl _, rfl, rfl⟩, by trivial⟩

theorem readClock (hm : m.store.Sound V) :
    Keeps V K spans Run.readClock m fun _ n => n.store = m.store :=
  ⟨⟨hm, .refl _, rfl, rfl⟩, rfl⟩

end Keeps

/-! ### Variables -/

/-- What the name that the expression `id` names is bound to. -/
def valueOf? (m : Machine) (id : Nat) (x : String) : Option Value :=
  match m.distances.get? id with
  | some d => m.store.getAt? m.frame d x
  | none => m.store.get? globals x

theorem lookUp_eq (m : Machine) (id : Nat) (x : String) (span : Span) :
    lookUp id x span m = Run.orFault (valueOf? m id x) (.undefinedVariable x) span m := by
  simp only [lookUp, Bind.bind, Run.bind, Run.ask, valueOf?]
  cases m.distances.get? id <;> rfl

/-- The frame of the variable that the expression `id` names. -/
def frameOf? (m : Machine) (id : Nat) (x : String) : Option FrameId :=
  match m.distances.get? id with
  | some d => m.store.bindingAt? m.frame d x
  | none => m.store.nearest? globals x

theorem assign_eq (m : Machine) (id : Nat) (x : String) (v : Value) (t : Span) :
    assign id x v t m =
      match frameOf? m id x with
      | some f => .done () { m with store := m.store.define f x v }
      | none => .fault ⟨.undefinedVariable x, t⟩ m := rfl

/-- What `super` does where the two variables that it needs are a class and an instance. -/
theorem superMethod_eq {s : Site} {x : Ident} {d : Nat} {c : ClassId} {i : InstanceId}
    (hd : m.distances.get? s.id = some (d + 1))
    (hc : m.store.getAt? m.frame (d + 1) "super" = some (.cls c))
    (hi : m.store.getAt? m.frame d "this" = some (.object i)) :
    superMethod s x m =
      (m.store.method? c x.name).elim (.fault ⟨.undefinedProperty x.name, x.span⟩ m)
      fun f => Run.update (·.bindValue f i) m := by
  cases hm : m.store.method? c x.name with
  | none =>
    simp only [superMethod, Bind.bind, Run.bind, Run.ask, hd, Run.valueAt, hc, Run.orFault,
      Pure.pure, Run.pure, Nat.add_one_ne_zero, if_false, Nat.add_sub_cancel, hi, hm, Run.fault,
      Option.elim]
  | some f =>
    simp only [superMethod, Bind.bind, Run.bind, Run.ask, hd, Run.valueAt, hc, Run.orFault,
      Pure.pure, Run.pure, Nat.add_one_ne_zero, if_false, Nat.add_sub_cancel, hi, hm, Option.elim]

namespace Keeps

theorem lookUp (hm : m.store.Sound V) (id : Nat) (x : String) {span : Span} (hs : span ∈ spans) :
    Keeps V K spans (lookUp id x span) m fun v n => valueOf? m id x = some v ∧ n = m := by
  have h := orFault (K := K) hm (valueOf? m id x) (.undefinedVariable x) hs
  unfold Keeps at h ⊢
  rwa [lookUp_eq]

theorem valueAt (hm : m.store.Sound V) (d : Nat) (x : String) {span : Span} (hs : span ∈ spans) :
    Keeps V K spans (valueAt d x span) m fun v n => m.store.getAt? m.frame d x = some v ∧ n = m :=
  orFault hm (m.store.getAt? m.frame d x) (.undefinedVariable x) hs

theorem assign (hm : m.store.Sound V) {x : String} (hx : Plain x) (id : Nat) (v : Value)
    {span : Span} (hs : span ∈ spans) : Keeps V K spans (assign id x v span) m fun _ _ => True := by
  have hfound : ∀ f, (s : Store) → (s.bound? f x).isSome → s.Sound V →
      (s.define f x v).Sound V ∧ Store.Grows K s (s.define f x v) := fun f s hb h =>
    ⟨h.define hx f v, .redefine v hb⟩
  unfold Keeps Run.assign
  dsimp only
  split
  · rename_i a n h
    split at h
    · rename_i f hf
      cases h
      have hb : (m.store.bound? f x).isSome := by
        cases hd : m.distances.get? id with
        | some d =>
          rw [hd] at hf
          exact Store.isSome_of_bindingAt? hf
        | none =>
          rw [hd] at hf
          exact Store.isSome_of_nearest? hf
      obtain ⟨h₁, h₂⟩ := hfound f m.store hb hm
      exact ⟨⟨h₁, h₂, rfl, rfl⟩, trivial⟩
    · cases h
  · rename_i e n h
    split at h
    · cases h
    · cases h
      exact ⟨.refl hm, hs⟩
  · rename_i h
    split at h <;> cases h

/-! ### Methods and properties -/

theorem superMethod (hm : m.store.Sound V) (s : Site) (x : Ident) :
    Keeps V K [s.span, x.span] (superMethod s x) m fun _ _ => True := by
  have hs : s.span ∈ [s.span, x.span] := by simp
  have hx : x.span ∈ [s.span, x.span] := by simp
  apply (ask hm _).bind
  intro d n hn h
  obtain ⟨-, rfl⟩ := h
  cases d with
  | none => exact fault hm _ hs
  | some d =>
    apply (valueAt hm d "super" hs).bind
    intro parent n hn h
    obtain ⟨-, rfl⟩ := h
    split
    · exact fault hm _ hs
    · apply (valueAt hm (d - 1) "this" hs).bind
      intro object n hn h
      obtain ⟨-, rfl⟩ := h
      split
      · apply (ask hm _).bind
        intro f n hn h
        obtain ⟨hf, rfl⟩ := h
        cases f with
        | none => exact fault hm _ hx
        | some f =>
          have hf := hm.method? hf.symm
          exact Keeps.imp (update _ (hm.bindValue hf _) (.bindValue _ f _)) fun _ _ _ => trivial
      · exact fault hm _ hs

theorem property (hm : m.store.Sound V) (v : Value) {x : Ident} (hx : x.span ∈ spans) :
    Keeps V K spans (property v x) m fun _ _ => True := by
  cases v with
  | object i =>
    apply (ask hm _).bind
    intro p n hn h
    obtain ⟨hp, rfl⟩ := h
    split
    · exact pure hm trivial
    · rename_i f hf
      have hf := hm.property? hp.symm
      exact Keeps.imp (update _ (hm.bindValue hf _) (.bindValue _ _ _)) fun _ _ _ => trivial
    · exact fault hm _ hx
  | nil | bool | number | string | function | cls | native => exact fault hm _ hx

theorem superclassOf (hm : m.store.Sound V) (p : Superclass) :
    Keeps V K [p.site.span, p.name.span] (superclassOf p) m fun _ n => n = m := by
  apply (lookUp hm _ _ (by simp)).bind
  intro v n hn h
  obtain ⟨-, rfl⟩ := h
  cases v with
  | cls c => exact pure hm rfl
  | nil | bool | number | string | function | native | object => exact fault hm _ (by simp)

end Keeps

end Run

end Lox
