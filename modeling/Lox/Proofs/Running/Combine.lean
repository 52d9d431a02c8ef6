import Lox.Proofs.Running.Twins
/-!
# Runs in step, piece by piece

Runs that go in step can be put together: one after the other, inside a frame, as a call, in order
over lists that are alike, and again and again.
-/

namespace Lox

variable {α β α' β' : Type} {C : Condition} {L : Likeness} {b : Nat} {E : Prop}

/-- Where a traced run and a watched one start or go on in step. -/
structure InStep (C : Condition) (L : Likeness) (b : Nat) (t : Trail) (w : Watch) : Prop where
  sound : C.Sound b t
  like : t.machine.Like L w.machine

/-- What is known of two runs in step when they have done a piece. -/
structure Advance (C : Condition) (L : Likeness) (b : Nat) (t u : Trail) (v : Watch) : Prop extends
    InStep C L b u v where
  moves : C.Moves b t.machine u.machine

theorem InStep.ready {t : Trail} {w : Watch} (h : InStep C L b t w) : C.Ready b t.machine :=
  h.sound.ready

theorem InStep.advance {t : Trail} {w : Watch} (h : InStep C L b t w) : Advance C L b t t w :=
  ⟨h, .refl h.ready⟩

theorem Advance.trans {t u u' : Trail} {v v' : Watch} (h : Advance C L b t u v)
    (h' : Advance C L b u u' v') : Advance C L b t u' v' :=
  ⟨h'.toInStep, h.moves.trans h'.moves⟩

/-- What was known of the code in the current frame is known again. -/
theorem Advance.fits {t u : Trail} {v : Watch} (h : Advance C L b t u v) {p : Spot}
    (hp : C.Fits t.machine.store t.machine.frame p) : C.Fits u.machine.store u.machine.frame p :=
  h.moves.frame ▸ h.moves.leads.spots _ p hp

namespace Twins

variable {x : Traced α} {y : Watched α'} {t : Trail} {w : Watch} {Q R : α → α' → Machine → Prop}

theorem imp (h : Twins C L b E x t y w Q) (hq : ∀ a a' n, Q a a' n → R a a' n) :
    Twins C L b E x t y w R := by
  unfold Twins at *
  split at h
  · obtain ⟨hf, a', v, hy, hl, hqa⟩ := h
    exact ⟨hf, a', v, hy, hl, hq _ _ _ hqa⟩
  · exact h
  · exact h

theorem bind {f : α → Traced β} {f' : α' → Watched β'} {R : β → β' → Machine → Prop}
    (h : Twins C L b E x t y w Q)
    (hf : ∀ a a' u v, Advance C L b t u v → Q a a' u.machine → Twins C L b E (f a) u (f' a') v R) :
    Twins C L b E (x >>= f) t (y >>= f') w R := by
  change Twins C L b E (Process.bind x f) t (Process.bind y f') w R
  unfold Twins Process.bind at *
  cases hx : x t with
  | done a u =>
    rw [hx] at h
    obtain ⟨hm, a', v, hy, hl, hq⟩ := h
    have ha := hf a a' u v ⟨⟨hm.sound, hl⟩, hm.moves⟩ hq
    simp only [hy]
    cases hfa : f a u with
    | done c o =>
      rw [hfa] at ha
      exact ⟨hm.trans ha.1, ha.2⟩
    | fault e o =>
      rw [hfa] at ha
      exact ⟨hm.trans ha.1, ha.2⟩
    | cut o =>
      rw [hfa] at ha
      exact ⟨hm.trans ha.1, ha.2⟩
  | fault e u =>
    rw [hx] at h
    obtain ⟨hm, e', v, hy, hl, he⟩ := h
    simp only [hy]
    exact ⟨hm, e', v, rfl, hl, he⟩
  | cut u =>
    rw [hx] at h
    refine ⟨h.1, fun he => ?_⟩
    obtain ⟨v, hy, hl⟩ := h.2 he
    simp only [hy]
    exact ⟨v, rfl, hl⟩

/-- A part that gives nothing to go on with. -/
theorem map {f : α → β} {f' : α' → β'} {R : β → β' → Machine → Prop} (h : Twins C L b E x t y w Q)
    (hf : ∀ a a' n, Q a a' n → R (f a) (f' a') n) :
    Twins C L b E (do return f (← x)) t (do return f' (← y)) w R :=
  h.bind fun a a' _ v hu hq => ⟨.refl hu.sound, f' a', v, rfl, hu.like, hf a a' _ hq⟩

/-- What goes back after a piece of a run. -/
theorem around {R : α → α' → Prop} {enter : Trail → Trail} {leave : Trail → Trail → Trail}
    {enter' : Watch → Watch} {leave' : Watch → Watch → Watch}
    (hx : Twins C L b E x (enter t) y (enter' w) fun a a' _ => R a a')
    (hk : ∀ u, C.Follows b (enter t) u → C.Follows b t (leave t u))
    (hl : ∀ u v, u.machine.Like L v.machine → (leave t u).machine.Like L (leave' w v).machine) :
    Twins C L b E (Process.around enter leave x) t (Process.around enter' leave' y) w
      fun a a' _ => R a a' := by
  unfold Twins Process.around at *
  cases hxt : x (enter t) with
  | done a u =>
    rw [hxt] at hx
    obtain ⟨hf, a', v, hy, hlu, hr⟩ := hx
    simp only [hy]
    exact ⟨hk u hf, a', _, rfl, hl u v hlu, hr⟩
  | fault e u =>
    rw [hxt] at hx
    obtain ⟨hf, e', v, hy, hlu, he⟩ := hx
    simp only [hy]
    exact ⟨hk u hf, e', _, rfl, hl u v hlu, he⟩
  | cut u =>
    rw [hxt] at hx
    refine ⟨hk u hx.1, fun he => ?_⟩
    obtain ⟨v, hy, hlu⟩ := hx.2 he
    simp only [hy]
    exact ⟨_, rfl, hl u v hlu⟩

section

variable (h : InStep C L b t w)

include h

theorem pure {a : α} {a' : α'} (hq : Q a a' t.machine) : Twins C L b E (pure a) t (pure a') w Q :=
  ⟨.refl h.sound, a', w, rfl, h.like, hq⟩

theorem fault (cause : FaultCause) {s s' : Span} (hs : L.span s s') :
    Twins C L b E (Host.fault cause s : Traced α) t (Host.fault cause s' : Watched α') w Q :=
  ⟨.refl h.sound, _, w, rfl, h.like, rfl, hs⟩

theorem cut (hw : E → y w = .cut w) : Twins C L b E (Host.cut : Traced α) t y w Q :=
  ⟨.refl h.sound, fun he => ⟨w, hw he, h.like⟩⟩

theorem ask (f : Machine → α) (f' : Machine → α') :
    Twins C L b E (Host.ask f) t (Host.ask f') w
      fun a a' n => a = f t.machine ∧ a' = f' w.machine ∧ n = t.machine :=
  ⟨.refl h.sound, _, w, rfl, h.like, rfl, rfl, rfl⟩

/-- What is asked has the same answer. -/
theorem askSame {f f' : Machine → α} (hf : f' w.machine = f t.machine) :
    Twins C L b E (Host.ask f) t (Host.ask f') w fun a a' n => a' = a ∧ f t.machine = a ∧
    n = t.machine :=
  ⟨.refl h.sound, _, w, rfl, h.like, hf, rfl, rfl⟩

theorem lift {r : Run α} {r' : Run α'} (hr : r.Twins C L b t.machine r' w.machine Q) :
    Twins C L b E (Host.lift r) t (Host.lift r') w Q := by
  unfold Twins
  rw [Traced.lift_eq, Watched.lift_eq]
  unfold Run.Twins at hr
  cases hx : r t.machine with
  | done a n =>
    rw [hx] at hr
    obtain ⟨hm, a', n', hr', hl, hq⟩ := hr
    simp only [hr']
    exact ⟨⟨h.sound.go hm.ready, hm⟩, a', _, rfl, hl, hq⟩
  | fault e n =>
    rw [hx] at hr
    obtain ⟨hm, e', n', hr', hl, he⟩ := hr
    simp only [hr']
    exact ⟨⟨h.sound.go hm.ready, hm⟩, e', _, rfl, hl, he⟩
  | outOfFuel =>
    rw [hx] at hr
    exact hr.elim

theorem note (e e' : Event)
    (he : ∀ n, e = .node n → C.Fits t.machine.store t.machine.frame (.here (.expr n))) :
    Twins C L b E (Host.note e) t (Host.note e') w fun _ _ n => n = t.machine :=
  ⟨⟨h.sound.stop he, .refl h.ready⟩, (), _, rfl, h.like, rfl⟩

/-- Both go back to the frame in which they were. -/
theorem inFrame {R : α → α' → Prop} {f : FrameId} (hf : C.At t.machine.store f)
    (hx : ∀ u v, InStep C L b u v → u.machine = { t.machine with frame := f } →
      Twins C L b E x u y v fun a a' _ => R a a') :
    Twins C L b E (Host.inFrame f x) t (Host.inFrame f y) w fun a a' _ => R a a' := by
  have hready : C.Ready b { t.machine with frame := f } :=
    ⟨h.ready.good, hf, h.ready.distances, h.ready.depth, h.ready.maxDepth⟩
  have hlike : Machine.Like L { t.machine with frame := f } { w.machine with frame := f } :=
    ⟨h.like.store, rfl, h.like.distances, h.like.depth, h.like.maxDepth,
      h.like.output, h.like.clock,
      h.like.readings⟩
  refine around (hx _ _ ⟨h.sound.go hready, hlike⟩ rfl) (fun u hu => ?_) fun u v hl => ?_
  · have hback : C.Ready b { u.machine with frame := t.machine.frame } :=
      ⟨hu.moves.ready.good, hu.moves.leads.frames _ h.ready.frame, hu.moves.ready.distances,
        hu.moves.ready.depth, hu.moves.ready.maxDepth⟩
    exact ⟨hu.sound.go hback, hback, hu.moves.leads, rfl, hu.moves.depth, hu.moves.maxDepth,
      hu.moves.output⟩
  · exact ⟨hl.store, h.like.frame, hl.distances, hl.depth, hl.maxDepth, hl.output,
      hl.clock, hl.readings⟩

/-- Both go back to the depth at which they were, which left room for a call. -/
theorem nested {R : α → α' → Prop} (hd : t.machine.depth < t.machine.maxDepth)
    (hx : ∀ u v, InStep C L b u v → u.machine = { t.machine with depth := t.machine.depth + 1 } →
      Twins C L b E x u y v fun a a' _ => R a a') :
    Twins C L b E (Host.nested x) t (Host.nested y) w fun a a' _ => R a a' := by
  have hready : C.Ready b { t.machine with depth := t.machine.depth + 1 } :=
    ⟨h.ready.good, h.ready.frame, h.ready.distances, Nat.le_trans hd h.ready.maxDepth,
      h.ready.maxDepth⟩
  have hlike : Machine.Like L { t.machine with depth := t.machine.depth + 1 }
      { w.machine with depth := w.machine.depth + 1 } :=
    ⟨h.like.store, h.like.frame, h.like.distances, congrArg (· + 1) h.like.depth, h.like.maxDepth,
      h.like.output, h.like.clock, h.like.readings⟩
  refine around (hx _ _ ⟨h.sound.go hready, hlike⟩ rfl) (fun u hu => ?_) fun u v hl => ?_
  · have hdepth : u.machine.depth - 1 = t.machine.depth := by
      rw [hu.moves.depth]
      rfl
    have hback : C.Ready b { u.machine with depth := u.machine.depth - 1 } :=
      ⟨hu.moves.ready.good, hu.moves.ready.frame, hu.moves.ready.distances,
        Nat.le_trans (Nat.sub_le _ _) hu.moves.ready.depth, hu.moves.ready.maxDepth⟩
    exact ⟨hu.sound.go hback, hback, hu.moves.leads, hu.moves.frame, hdepth, hu.moves.maxDepth,
      hu.moves.output⟩
  · exact ⟨hl.store, hl.frame, hl.distances, congrArg (· - 1) hl.depth, hl.maxDepth,
      hl.output, hl.clock,
      hl.readings⟩

end

end Twins

end Lox
