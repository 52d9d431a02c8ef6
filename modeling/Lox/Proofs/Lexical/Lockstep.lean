import Lox.Proofs.Lexical.Link
import Lox.Proofs.Running.Safe
/-!
# Running in lockstep

A watched run and a run of the lexical interpreter are in lockstep when they end in the same way:
both give results that belong together and leave a linked machine and world, or both fault in the
same way, or both are cut off; and what they have printed is the same in each case.
-/

namespace Lox

open Lexical

structure Machine.Linked (V : Visit → Prop) (κ : Naming) (m : Machine) (w : World) : Prop where
  store : m.store.Linked V κ w
  depth : w.depth = m.depth
  maxDepth : w.maxDepth = m.maxDepth
  output : w.output = m.output
  clock : w.clock = m.clock
  readings : w.readings = m.readings

/-- What a world has besides cells and objects. -/
def Lexical.World.rest (w : World) : Nat × Nat × Output × (Nat → Float) × Nat :=
  (w.depth, w.maxDepth, w.output, w.clock, w.readings)

/-- The store changes, and the rest stays as it is. The current frame does not matter. -/
theorem Machine.Linked.withStore {V : Visit → Prop} {κ ν : Naming} {m : Machine} {w v : World}
    (h : m.Linked V κ w) {s : Store} (hs : s.Linked V ν v) (hr : v.rest = w.rest) {f : FrameId} :
    Machine.Linked V ν { m with store := s, frame := f } v := by
  simp only [World.rest, Prod.mk.injEq] at hr
  obtain ⟨hdepth, hmax, houtput, hclock, hreadings⟩ := hr
  exact {
    store := hs
    depth := hdepth.trans h.depth
    maxDepth := hmax.trans h.maxDepth
    output := houtput.trans h.output
    clock := hclock.trans h.clock
    readings := hreadings.trans h.readings }

/-- Depth, output and the readings of the clock have nothing to do with the store. -/
theorem Store.Linked.withRest {V : Visit → Prop} {κ : Naming} {s : Store} {w : World}
    (h : s.Linked V κ w) (depth : Nat) (output : Output) (readings : Nat) :
    s.Linked V κ { w with depth := depth, output := output, readings := readings } :=
  ⟨h.globals, h.inner, h.cells, h.injective, h.functions, h.classes, h.natives, h.instances⟩

/-- Whether two runs end alike: with results that have `Q`, or with one fault, or cut off, the last
states having `O` in these two cases. -/
inductive Ending.Alike {σ τ α β : Type} (Q : α → σ → β → τ → Prop) (O : σ → τ → Prop) :
    Ending σ α → Ending τ β → Prop where
  | done {a : α} {s : σ} {b : β} {t : τ} : Q a s b t → Alike Q O (.done a s) (.done b t)
  | fault {e : Fault} {s : σ} {t : τ} : O s t → Alike Q O (.fault e s) (.fault e t)
  | cut {s : σ} {t : τ} : O s t → Alike Q O (.cut s) (.cut t)

/-- Whether `x`, started in `w`, and `y`, started in `v`, run in lockstep. -/
def Lockstep {α β : Type} (V : Visit → Prop) (κ : Naming) (x : Watched α) (y : Process World β)
    (w : Watch) (v : World) (Q : Naming → α → Watch → β → World → Prop) : Prop :=
  Ending.Alike (fun a w b v => ∃ ν : Naming, ν.Extends κ ∧ w.machine.Linked V ν v ∧ Q ν a w b v)
    (fun w v => v.output = w.machine.output) (x w) (y v)

namespace Lockstep

variable {α β γ δ : Type} {V : Visit → Prop} {D : Distances} {κ ν : Naming} {x : Watched α}
  {y : Process World β} {w w' : Watch} {v v' : World} {Q R : Naming → α → Watch → β → World → Prop}

theorem imp (h : Lockstep V κ x y w v Q)
    (hq : ∀ ν a w' b v', ν.Extends κ → w'.machine.Linked V ν v' → Q ν a w' b v' → R ν a w' b v') :
    Lockstep V κ x y w v R := by
  unfold Lockstep at *
  generalize x w = p at h ⊢
  generalize y v = q at h ⊢
  cases h with
  | done hd =>
    obtain ⟨ν, hν, hl, hr⟩ := hd
    exact .done ⟨ν, hν, hl, hq ν _ _ _ _ hν hl hr⟩
  | fault ho => exact .fault ho
  | cut ho => exact .cut ho

/-- What was named before is named still. -/
theorem after (hν : ν.Extends κ) (h : Lockstep V ν x y w v Q) : Lockstep V κ x y w v Q := by
  unfold Lockstep at *
  generalize x w = p at h ⊢
  generalize y v = q at h ⊢
  cases h with
  | done hd =>
    obtain ⟨μ, hμ, hl, hq⟩ := hd
    exact .done ⟨μ, hν.trans hμ, hl, hq⟩
  | fault ho => exact .fault ho
  | cut ho => exact .cut ho

theorem bind {f : α → Watched γ} {g : β → Process World δ}
    {R : Naming → γ → Watch → δ → World → Prop} (h : Lockstep V κ x y w v Q)
    (hf : ∀ ν a w' b v', ν.Extends κ → w'.machine.Linked V ν v' → Q ν a w' b v' →
      Lockstep V ν (f a) (g b) w' v' R) : Lockstep V κ (x >>= f) (y >>= g) w v R := by
  change Ending.Alike _ _ (Process.bind x f w) (Process.bind y g v)
  unfold Lockstep at h
  unfold Process.bind
  generalize x w = p at h ⊢
  generalize y v = q at h ⊢
  cases h with
  | done hd =>
    obtain ⟨ν, hν, hl, hq⟩ := hd
    exact (hf ν _ _ _ _ hν hl hq).after hν
  | fault ho => exact .fault ho
  | cut ho => exact .cut ho

/-- The other run goes on alone. -/
theorem bind_right {g : β → Process World δ} {R : Naming → α → Watch → δ → World → Prop}
    (h : Lockstep V κ x y w v Q) (hg : ∀ ν a w' b v', ν.Extends κ → w'.machine.Linked V ν v' →
      Q ν a w' b v' → Lockstep V ν (pure a) (g b) w' v' R) : Lockstep V κ x (y >>= g) w v R := by
  have hx : (x >>= Pure.pure) w = x w := by
    change Process.bind x Process.pure w = x w
    unfold Process.bind Process.pure
    cases x w <;> rfl
  have hb := h.bind hg
  unfold Lockstep at hb ⊢
  rwa [hx] at hb

theorem pure (hl : w.machine.Linked V κ v) {a : α} {b : β} (hq : Q κ a w b v) :
    Lockstep V κ (pure a) (pure b) w v Q := .done ⟨κ, .refl κ, hl, hq⟩

theorem cut (hl : w.machine.Linked V κ v) : Lockstep V κ (Host.cut : Watched α)
    (Process.cut : Process World β) w v Q := Ending.Alike.cut hl.output

theorem fault (hl : w.machine.Linked V κ v) (cause : FaultCause) (span : Span) :
    Lockstep V κ (Host.fault cause span : Watched α)
      (Process.fault cause span : Process World β) w v Q :=
  Ending.Alike.fault hl.output

/-- Both do something that gives a result. -/
theorem of_done {a : α} {b : β} (hx : x w = .done a w') (hy : y v = .done b v') (hν : ν.Extends κ)
    (hl : w'.machine.Linked V ν v') (hq : Q ν a w' b v') : Lockstep V κ x y w v Q := by
  unfold Lockstep
  rw [hx, hy]
  exact .done ⟨ν, hν, hl, hq⟩

theorem of_fault {e : Fault} (hx : x w = .fault e w') (hy : y v = .fault e v')
    (ho : v'.output = w'.machine.output) : Lockstep V κ x y w v Q := by
  unfold Lockstep
  rw [hx, hy]
  exact .fault ho

/-- Only the watched run does something. -/
theorem left {f : γ → Watched α} {z : Watched γ} {c : γ} (hz : z w = .done c w')
    (h : Lockstep V κ (f c) y w' v Q) : Lockstep V κ (z >>= f) y w v Q := by
  have hb : (z >>= f) w = f c w' := by
    change Process.bind z f w = _
    unfold Process.bind
    rw [hz]
  unfold Lockstep at h ⊢
  rwa [hb]

/-- Only the other run does something. -/
theorem right {g : γ → Process World β} {z : Process World γ} {c : γ} (hz : z v = .done c v')
    (h : Lockstep V κ x (g c) w v' Q) : Lockstep V κ x (z >>= g) w v Q := by
  have hb : (z >>= g) v = g c v' := by
    change Process.bind z g v = _
    unfold Process.bind
    rw [hz]
  unfold Lockstep at h ⊢
  rwa [hb]

/-- Both do something that gives a result, and go on with it. -/
theorem step {f : γ → Watched α} {g : δ → Process World β} {p : Watched γ} {q : Process World δ}
    {a : γ} {b : δ} (hp : p w = .done a w') (hq : q v = .done b v') (hν : ν.Extends κ)
    (h : Lockstep V ν (f a) (g b) w' v' Q) : Lockstep V κ (p >>= f) (q >>= g) w v Q :=
  .left hp (.right hq (h.after hν))

theorem note {e : Event}
    (h : Lockstep V κ x y { w with moments := ⟨e, w.machine⟩ :: w.moments } v Q) :
    Lockstep V κ (do Host.note e; x) y w v Q := .left rfl h

/-- Both look at their states. -/
theorem ask {f : Machine → γ} {r : γ → Watched α} {g : World → δ} {q : δ → Process World β} {a : γ}
    {b : δ} (ha : f w.machine = a) (hb : g v = b) (h : Lockstep V κ (r a) (q b) w v Q) :
    Lockstep V κ (do r (← Host.ask f)) (do q (← Process.ask g)) w v Q := by
  subst ha hb
  exact h

theorem lift_ask {f : Machine → γ} {r : γ → Run α} {g : World → δ} {q : δ → Process World β}
    (h : Lockstep V κ (Host.lift (r (f w.machine))) (q (g v)) w v Q) :
    Lockstep V κ (Host.lift (do r (← Run.ask f))) (do q (← Process.ask g)) w v Q := h

theorem orFault (hl : w.machine.Linked V κ v) (a : Option α) (cause : FaultCause) (span : Span) :
    Lockstep V κ (Host.lift (Run.orFault a cause span)) (Process.orFault a cause span) w v
      fun _ a w' b v' => b = a ∧ w' = w ∧ v' = v := by
  cases a with
  | none => exact .of_fault rfl rfl hl.output
  | some a => exact .of_done rfl rfl (.refl κ) hl ⟨rfl, rfl, rfl⟩

theorem ofExcept (hl : w.machine.Linked V κ v) (a : Except FaultCause α) (span : Span) :
    Lockstep V κ (Host.lift (Run.ofExcept a span)) (Process.ofExcept a span) w v
      fun _ a _ b _ => b = a := by
  cases a with
  | error cause => exact .of_fault rfl rfl hl.output
  | ok a => exact .of_done rfl rfl (.refl κ) hl rfl

/-- The frame of a piece of a run does not matter to the world. -/
theorem inFrame {P : α → β → Prop} {f : FrameId}
    (h : Lockstep V κ x y { w with machine.frame := f } v fun _ a _ b _ => P a b) :
    Lockstep V κ (Host.inFrame f x) y w v fun _ a _ b _ => P a b := by
  unfold Lockstep at *
  rw [Watched.inFrame_eq]
  unfold Process.around
  generalize x { w with machine.frame := f } = p at h ⊢
  generalize y v = q at h ⊢
  cases h with
  | done hd =>
    obtain ⟨ν, hν, hl, hp⟩ := hd
    exact .done ⟨ν, hν, hl.withStore hl.store rfl, hp⟩
  | fault ho => exact .fault ho
  | cut ho => exact .cut ho

theorem nested {P : α → β → Prop}
    (h : Lockstep V κ x y { w with machine.depth := w.machine.depth + 1 }
      { v with depth := v.depth + 1 } fun _ a _ b _ => P a b) :
    Lockstep V κ (Host.nested x) (Lexical.nested y) w v fun _ a _ b _ => P a b := by
  unfold Lockstep at *
  rw [Watched.nested_eq]
  unfold Lexical.nested Process.around
  generalize x { w with machine.depth := w.machine.depth + 1 } = p at h ⊢
  generalize y { v with depth := v.depth + 1 } = q at h ⊢
  cases h with
  | done hd =>
    obtain ⟨ν, hν, hl, hp⟩ := hd
    exact .done ⟨ν, hν, ⟨hl.store.withRest _ _ _, congrArg (· - 1) hl.depth, hl.maxDepth,
      hl.output, hl.clock,
      hl.readings⟩, hp⟩
  | fault ho => exact .fault ho
  | cut ho => exact .cut ho

/-- What is known of a watched run because it is safe. -/
theorem and_safe {K : FrameId → Prop} {P : α → Watch → Prop} (hs : Safe V D K x w P)
    (h : Lockstep V κ x y w v Q) :
    Lockstep V κ x y w v fun ν a w' b v' => w.Keeps V D K w' ∧ P a w' ∧ Q ν a w' b v' := by
  unfold Safe at hs
  unfold Lockstep at *
  generalize x w = p at h hs ⊢
  generalize y v = q at h ⊢
  cases h with
  | done hd =>
    obtain ⟨ν, hν, hl, hq⟩ := hd
    exact .done ⟨ν, hν, hl, hs.1, hs.2, hq⟩
  | fault ho => exact .fault ho
  | cut ho => exact .cut ho

end Lockstep

end Lox
