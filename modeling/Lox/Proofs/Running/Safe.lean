import Lox.Proofs.Reading.Sights
import Lox.Proofs.Running.Primitive
import Lox.Proofs.Running.Watch
/-!
# Safe runs

A run is safe when all its moments are sound, it keeps the store sound, and its fault, if it has
one, is reported at a span of the last moment. At a sound moment of an expression the frames mirror
the scopes in which the expression was visited.
-/

namespace Lox

/-- The spans at which an event can be reported. An initializer always has an
instance to give back. -/
def Event.spans : Event → List Span
  | .node e => (Sight.expr e).spans
  | .print t => [t]
  | .answer _ => []

structure Moment.Sound (V : Visit → Prop) (D : Distances) (m : Moment) : Prop where
  store : m.machine.store.Sound V
  distances : m.machine.distances = D
  event :
    match m.event with
    | .node e => ∃ c : Context, V ⟨.expr e, c⟩ ∧ m.machine.store.Mirrors m.machine.frame c.scopes
    | .print t => ∃ c : Context, V ⟨.print t, c⟩
    | .answer c => (m.machine.store.bound? c.scope "this").isSome

namespace Watch

structure Sound (V : Visit → Prop) (D : Distances) (w : Watch) : Prop where
  store : w.machine.store.Sound V
  distances : w.machine.distances = D
  moments : ∀ m ∈ w.moments, m.Sound V D

structure Keeps (V : Visit → Prop) (D : Distances) (K : FrameId → Prop) (w v : Watch) : Prop where
  sound : v.Sound V D
  machine : w.machine.Keeps V K v.machine

/-- A moment is added that is sound in the machine as it is. -/
theorem Sound.note {V : Visit → Prop} {D : Distances} {w : Watch} (hw : w.Sound V D) {e : Event}
    (he : (⟨e, w.machine⟩ : Moment).Sound V D) :
    Sound V D { w with moments := ⟨e, w.machine⟩ :: w.moments } where
  store := hw.store
  distances := hw.distances
  moments m hm := by
    rcases List.mem_cons.mp hm with rfl | hm
    · exact he
    · exact hw.moments m hm

/-- Whether the fault is reported at a span of the last moment. -/
def Blames (w : Watch) (f : Fault) : Prop := ∃ m ms, w.moments = m :: ms ∧ f.span ∈ m.event.spans

end Watch

variable {V : Visit → Prop} {D : Distances} {K : FrameId → Prop} {α β : Type}

namespace Watch.Keeps

variable {w v u : Watch}

theorem refl (h : w.Sound V D) : w.Keeps V D K w := ⟨h, .refl h.store⟩

theorem trans (h : w.Keeps V D K v) (h' : v.Keeps V D K u) : w.Keeps V D K u :=
  ⟨h'.sound, h.machine.trans h'.machine⟩

theorem weaken {K' : FrameId → Prop} (h : w.Keeps V D K v) (hk : ∀ f, K' f → K f) :
    w.Keeps V D K' v := ⟨h.sound, h.machine.weaken hk⟩

end Watch.Keeps

/-- `x`, started in `w`, is safe, and its result has `Q` if there is one. -/
def Safe (V : Visit → Prop) (D : Distances) (K : FrameId → Prop) (x : Watched α) (w : Watch)
    (Q : α → Watch → Prop) : Prop :=
  match x w with
  | .done a v => w.Keeps V D K v ∧ Q a v
  | .fault f v => w.Keeps V D K v ∧ v.Blames f
  | .cut v => w.Keeps V D K v

namespace Safe

variable {x : Watched α} {w : Watch} {Q R : α → Watch → Prop}

theorem keeps (h : Safe V D K x w Q) : w.Keeps V D K (x w).state := by
  unfold Safe at h
  cases hx : x w with
  | done a v =>
    rw [hx] at h
    exact h.1
  | fault e v =>
    rw [hx] at h
    exact h.1
  | cut v =>
    rw [hx] at h
    exact h

theorem mono {K' : FrameId → Prop} (h : Safe V D K x w Q)
    (hk : ∀ v, w.Keeps V D K v → w.Keeps V D K' v) (hq : ∀ a v, w.Keeps V D K v → Q a v → R a v) :
    Safe V D K' x w R := by
  unfold Safe at *
  cases hx : x w with
  | done a v =>
    rw [hx] at h
    exact ⟨hk v h.1, hq a v h.1 h.2⟩
  | fault e v =>
    rw [hx] at h
    exact ⟨hk v h.1, h.2⟩
  | cut v =>
    rw [hx] at h
    exact hk v h

theorem imp (h : Safe V D K x w Q) (hq : ∀ a v, w.Keeps V D K v → Q a v → R a v) :
    Safe V D K x w R :=
  h.mono (fun _ hv => hv) hq

theorem weaken {K' : FrameId → Prop} (h : Safe V D K x w Q) (hk : ∀ f, K' f → K f) :
    Safe V D K' x w Q :=
  h.mono (fun _ hv => hv.weaken hk) fun _ _ _ hq => hq

/-- What keeps the names of the frames that were there at the start keeps those of all frames. -/
theorem of_lt (h : Safe V D (· < w.machine.store.frames.size) x w Q) :
    Safe V D (fun _ => True) x w Q :=
  h.mono (fun _ hv => ⟨hv.sound, hv.machine.sound, hv.machine.grows.of_lt, hv.machine.frame,
    hv.machine.distances⟩) fun _ _ _ hq => hq

theorem bind {f : α → Watched β} {R : β → Watch → Prop} (h : Safe V D K x w Q)
    (hf : ∀ a v, w.Keeps V D K v → Q a v → Safe V D K (f a) v R) : Safe V D K (x >>= f) w R := by
  change Safe V D K (Process.bind x f) w R
  unfold Safe Process.bind at *
  cases hx : x w with
  | done a v =>
    rw [hx] at h
    have ha := hf a v h.1 h.2
    dsimp only
    cases hfa : f a v with
    | done b u =>
      rw [hfa] at ha
      exact ⟨h.1.trans ha.1, ha.2⟩
    | fault e u =>
      rw [hfa] at ha
      exact ⟨h.1.trans ha.1, ha.2⟩
    | cut u =>
      rw [hfa] at ha
      exact h.1.trans ha
  | fault e v =>
    rw [hx] at h
    exact h
  | cut v =>
    rw [hx] at h
    exact h

theorem pure (hw : w.Sound V D) {a : α} (hq : Q a w) : Safe V D K (pure a) w Q := ⟨.refl hw, hq⟩

theorem cut (hw : w.Sound V D) : Safe V D K (Host.cut : Watched α) w Q := .refl hw

theorem ask (hw : w.Sound V D) (f : Machine → α) :
    Safe V D K (Host.ask f) w fun a v => a = f w.machine ∧ v = w := ⟨.refl hw, rfl, rfl⟩

/-- Work that does not fault. -/
theorem lift {r : Run α} {Q : α → Machine → Prop} (hw : w.Sound V D)
    (h : r.Keeps V K [] w.machine Q) : Safe V D K (Host.lift r) w fun a v => Q a v.machine := by
  unfold Safe
  rw [Watched.lift_eq]
  unfold Run.Keeps at h
  cases hr : r w.machine with
  | done a n =>
    rw [hr] at h
    exact ⟨⟨⟨h.1.sound, h.1.distances.trans hw.distances, hw.moments⟩, h.1⟩, h.2⟩
  | fault e n =>
    rw [hr] at h
    cases h.2
  | outOfFuel =>
    rw [hr] at h
    exact h.elim

/-- An event that is sound in the machine where it comes. -/
theorem note {e : Event} (hw : w.Sound V D) (he : (⟨e, w.machine⟩ : Moment).Sound V D) :
    Safe V D K (Host.note e) w
      fun _ v => v.machine = w.machine ∧ v.moments = ⟨e, w.machine⟩ :: w.moments :=
  ⟨⟨hw.note he, .refl hw.store⟩, rfl, rfl⟩

/-- A fault of the last event. -/
theorem fault (hw : w.Sound V D) {m : Moment} {ms : List Moment} (hm : w.moments = m :: ms)
    (cause : FaultCause) {span : Span} (hs : span ∈ m.event.spans) :
    Safe V D K (Host.fault cause span : Watched α) w Q := ⟨.refl hw, m, ms, hm, hs⟩

/-- Work of the last event. -/
theorem work {r : Run α} {Q : α → Machine → Prop} (hw : w.Sound V D) {m : Moment} {ms : List Moment}
    (hm : w.moments = m :: ms) (h : r.Keeps V K m.event.spans w.machine Q) :
    Safe V D K (Host.lift r) w fun a v => Q a v.machine := by
  unfold Safe
  rw [Watched.lift_eq]
  unfold Run.Keeps at h
  cases hr : r w.machine with
  | done a n =>
    rw [hr] at h
    exact ⟨⟨⟨h.1.sound, h.1.distances.trans hw.distances, hw.moments⟩, h.1⟩, h.2⟩
  | fault e n =>
    rw [hr] at h
    exact ⟨⟨⟨h.1.sound, h.1.distances.trans hw.distances, hw.moments⟩, h.1⟩, m, ms, hm, h.2⟩
  | outOfFuel =>
    rw [hr] at h
    exact h.elim

/-- What goes back after a piece of a run leaves the record as it is. -/
theorem around {enter : Watch → Watch} {leave : Watch → Watch → Watch}
    (h : Safe V D K x (enter w) Q) (hk : ∀ v, (enter w).Keeps V D K v → w.Keeps V D K (leave w v))
    (hm : ∀ v, (leave w v).moments = v.moments) :
    Safe V D K (Process.around enter leave x) w fun _ _ => True := by
  unfold Safe at *
  unfold Process.around
  cases hx : x (enter w) with
  | done a v =>
    rw [hx] at h
    exact ⟨hk v h.1, trivial⟩
  | fault e v =>
    rw [hx] at h
    obtain ⟨m, ms, hv, hs⟩ := h.2
    exact ⟨hk v h.1, m, ms, (hm v).trans hv, hs⟩
  | cut v =>
    rw [hx] at h
    exact hk v h

theorem inFrame {f : FrameId} (h : Safe V D K x { w with machine.frame := f } Q) :
    Safe V D K (Host.inFrame f x) w fun _ _ => True :=
  h.around (fun _ hv => ⟨⟨hv.sound.store, hv.sound.distances, hv.sound.moments⟩,
    ⟨hv.machine.sound, hv.machine.grows, rfl, hv.machine.distances⟩⟩) fun _ => rfl

theorem nested (h : Safe V D K x { w with machine.depth := w.machine.depth + 1 } Q) :
    Safe V D K (Host.nested x) w fun _ _ => True :=
  h.around (fun _ hv => ⟨⟨hv.sound.store, hv.sound.distances, hv.sound.moments⟩,
    ⟨hv.machine.sound, hv.machine.grows, hv.machine.frame, hv.machine.distances⟩⟩) fun _ => rfl

end Safe

end Lox
