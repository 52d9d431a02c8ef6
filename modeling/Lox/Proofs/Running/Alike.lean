import Lox.Proofs.Running.Unwinding
import Lox.Proofs.Scoping.Sound
/-!
# Runs of programs that are alike

Programs that are alike, run on machines that are alike with the same fuel, end alike. A program
that returns nowhere outside of functions runs on into what stands after it.
-/

namespace Lox

variable {α β : Type} {L : Likeness}

/-- Two runs end in the same way, in machines that are alike. -/
inductive Result.Like (L : Likeness) : Result α → Result α → Prop where
  | done {a m m'} : m.Like L m' → Like L (.done a m) (.done a m')
  | fault {e e' m m'} : L.Located e e' → m.Like L m' → Like L (.fault e m) (.fault e' m')
  | outOfFuel : Like L .outOfFuel .outOfFuel

theorem interpret_like (fuel : Nat) {ss ss' : List Stmt} (hss : List.Forall₂ (Stmt.Like L) ss ss')
    {m m' : Machine} (hm : m.Like L m') : (interpret fuel ss m).Like L (interpret fuel ss' m') := by
  have hC := Condition.invariant_trivial m.distances
  have hready : (Condition.trivial m.distances).Ready (max m.depth m.maxDepth) m :=
    ⟨trivial, trivial, rfl, Nat.le_max_left _ _, Nat.le_max_right _ _⟩
  have h := twins_traceAll (E := True) hC (Nat.le_refl fuel) (fun _ => rfl) hss
    (t := .start m) (w := ⟨m', []⟩) ⟨.start hready, hm⟩ (fun _ _ => trivial) fun _ _ => trivial
  rw [← result_traceAll, ← result_watchAll fuel ss' ⟨m', []⟩]
  unfold Twins at h
  cases ht : traceAll fuel ss (.start m) with
  | done a t =>
    rw [ht] at h
    obtain ⟨-, a', v, hv, hl, rfl⟩ := h
    rw [hv]
    exact .done hl
  | fault e t =>
    rw [ht] at h
    obtain ⟨-, e', v, hv, hl, he⟩ := h
    rw [hv]
    exact .fault he hl
  | cut t =>
    rw [ht] at h
    obtain ⟨v, hv, -⟩ := h.2 trivial
    rw [hv]
    exact .outOfFuel

/-! ### Other distances -/

/-- Nothing differs in code with numbers below `n`, for which the distances agree;
these never change. -/
def Likeness.below (n : Nat) (d d' : Distances) (h : ∀ i < n, d'.get? i = d.get? i) : Likeness where
  span := Eq
  id i i' := i < n ∧ i' = i
  distances e e' := e = d ∧ e' = d'
  get? := by
    rintro _ _ _ _ ⟨rfl, rfl⟩ ⟨hi, rfl⟩
    exact h _ hi

/-- Distances for numbers that no expression has make no difference. -/
theorem interpret_addDistances {fuel n : Nat} {body : List Stmt} {m m₁ : Machine} {d d' : Distances}
    (hm : m.store.Declares fun c => ∀ v ∈ c.sights, v.Below n)
    (hbody : ∀ v ∈ Stmt.sightsAll body, v.Below n)
    (hd : ∀ i < n, (m.addDistances d').distances.get? i = (m.addDistances d).distances.get? i)
    (hr : interpret fuel body (m.addDistances d) = .done () m₁) :
    m₁.distances = (m.addDistances d).distances ∧
      interpret fuel body (m.addDistances d') =
        .done () { m₁ with distances := (m.addDistances d').distances } := by
  have hstore : m.store.Like (.below n _ _ hd) m.store :=
    Store.like_refl (fun _ => rfl) (hm.imp fun c hc v hv i hi => ⟨hc v hv i hi, rfl⟩)
  have hlike := Stmt.forall₂_like_refl (L := .below n _ _ hd) (fun _ => rfl) body
    fun v hv i hi => ⟨hbody v hv i hi, rfl⟩
  have hstart : (m.addDistances d).Like (.below n _ _ hd) (m.addDistances d') :=
    ⟨hstore, rfl, ⟨rfl, rfl⟩, rfl, rfl, rfl, rfl, rfl⟩
  have hrun := interpret_like fuel hlike hstart
  rw [hr] at hrun
  generalize interpret fuel body (m.addDistances d') = r at hrun ⊢
  cases hrun with
  | @done _ _ m₂ hl =>
    obtain ⟨hdone, hdone'⟩ := hl.distances
    rw [Machine.eq_of_exact ⟨Eq.symm, And.right⟩ hl, hdone']
    exact ⟨hdone, rfl⟩

/-! ### Returns -/

mutual

/-- Nothing in the statement returns, functions apart. -/
def Stmt.Straight : Stmt → Prop
  | .block _ b => Stmt.StraightAll b
  | .ifElse _ _ s none => s.Straight
  | .ifElse _ _ s (some t) => s.Straight ∧ t.Straight
  | .whileLoop _ _ s => s.Straight
  | .returning _ _ _ => False
  | .expr _ _ | .print _ _ | .var _ _ _ | .function _ | .classDecl _ _ _ _ => True

def Stmt.StraightAll : List Stmt → Prop
  | [] => True
  | s :: ss => s.Straight ∧ Stmt.StraightAll ss

end

theorem Stmt.StraightAll.of_mem {ss : List Stmt} (h : Stmt.StraightAll ss) {s : Stmt}
    (hs : s ∈ ss) : s.Straight := by
  induction ss with
  | nil => cases hs
  | cons t ss ih =>
    rcases List.mem_cons.mp hs with rfl | hs
    · exact h.1
    · exact ih h.2 hs

mutual

/-- Outside of functions a return is an error. -/
theorem Stmt.straight {w : Walk} (hw : w.function = .none) :
    (s : Stmt) → (∀ v ∈ s.visits w, v.Faultless) →
    s.Straight
  | .expr _ _, _ | .print _ _, _ | .var _ _ _, _ | .function _, _ | .classDecl _ _ _ _, _ => trivial
  | .block _ b, h => Stmt.straightAll (w := w.openScope) hw b h
  | .ifElse _ c s none, h =>
    s.straight ((congrArg Context.function (c.context_resolve w)).trans hw)
      fun v hv => h v (by simp [Stmt.visits, hv])
  | .ifElse _ c s (some t), h => by
    have hs : ∀ v ∈ s.visits (c.resolve w), v.Faultless := fun v hv =>
      h v (by simp [Stmt.visits, hv])
    have hc : (c.resolve w).function = .none :=
      (congrArg Context.function (c.context_resolve w)).trans hw
    have hafter :=
      congrArg Context.function (s.context_resolve (c.resolve w) fun v hv => (hs v hv).proper)
    exact ⟨s.straight hc hs,
      t.straight (hafter.trans hc) fun v hv => h v (by simp [Stmt.visits, hv])⟩
  | .whileLoop _ c s, h =>
    s.straight ((congrArg Context.function (c.context_resolve w)).trans hw)
      fun v hv => h v (by simp [Stmt.visits, hv])
  | .returning _ k none, h => by
    have he := (h ⟨.returning k false, w.context⟩ (by simp [Stmt.visits])).errors_eq
    simp [Visit.errors, Walk.context, hw] at he
  | .returning _ k (some e), h => by
    have he := (h ⟨.returning k true, w.context⟩ (by simp [Stmt.visits])).errors_eq
    simp [Visit.errors, Walk.context, hw] at he

theorem Stmt.straightAll {w : Walk} (hw : w.function = .none) : (ss : List Stmt) →
    (∀ v ∈ Stmt.visitsAll w ss, v.Faultless) → Stmt.StraightAll ss
  | [], _ => trivial
  | s :: ss, h => by
    have hs : ∀ v ∈ s.visits w, v.Faultless := fun v hv => h v (List.mem_append_left _ hv)
    have hafter := congrArg Context.function (s.context_resolve w fun v hv => (hs v hv).proper)
    exact ⟨s.straight hw hs, Stmt.straightAll (hafter.trans hw) ss fun v hv =>
      h v (List.mem_append_right _ hv)⟩

end

namespace Run

/-- Whatever the run gives, if it comes to a normal end, has the property. -/
def Gives (r : Run α) (Q : α → Prop) : Prop := ∀ m a n, r m = .done a n → Q a

namespace Gives

variable {r : Run α} {Q : α → Prop}

theorem pure {a : α} (h : Q a) : Gives (pure a) Q := by
  rintro m b n ⟨⟩
  exact h

theorem bind {R : β → Prop} {f : α → Run β} (hr : r.Gives Q) (hf : ∀ a, Q a → (f a).Gives R) :
    (r >>= f).Gives R := by
  intro m b n h
  change Run.bind r f m = _ at h
  unfold Run.bind at h
  split at h
  · rename_i a n' ha
    exact hf a (hr m a n' ha) n' b n h
  · cases h
  · cases h

theorem any : r.Gives fun _ => True := fun _ _ _ _ => trivial

theorem inFrame (f : FrameId) (h : r.Gives Q) : (Run.inFrame f r).Gives Q := by
  intro m a n hr
  unfold Run.inFrame at hr
  dsimp only at hr
  split at hr
  · rename_i b n' hb
    cases hr
    exact h _ _ _ hb
  · cases hr
  · cases hr

theorem sequence {f : α → Run Flow} {as : List α} (h : ∀ a ∈ as, (f a).Gives (· = .normal)) :
    (Run.sequence f as).Gives (· = .normal) := by
  induction as with
  | nil => exact pure rfl
  | cons a as ih =>
    refine (h a List.mem_cons_self).bind ?_
    rintro _ rfl
    exact ih fun b hb => h b (List.mem_cons_of_mem _ hb)

theorem loop (test : Run Bool) {body : Run Flow} (h : body.Gives (· = .normal)) (n : Nat) :
    (Run.loop test body n).Gives (· = .normal) := by
  induction n with
  | zero =>
    rintro m a n ⟨⟩
  | succ n ih =>
    refine any.bind fun b _ => ?_
    split
    · refine h.bind ?_
      rintro _ rfl
      exact ih
    · exact pure rfl

end Gives

end Run

/-- A statement in which nothing returns ends normally. -/
theorem Stmt.exec_normal (fuel : Nat) {s : Stmt} (h : s.Straight) :
    (Stmt.exec fuel s).Gives (· = .normal) := by
  induction fuel generalizing s with
  | zero => rintro m a n ⟨⟩
  | succ fuel ih =>
    cases s with
    | expr =>
      rw [Stmt.exec, Run.atLevel_eq]
      exact .bind .any fun _ _ => .pure rfl
    | print =>
      rw [Stmt.exec, Run.atLevel_eq]
      exact .bind .any fun _ _ => .bind .any fun _ _ => .bind .any fun _ _ => .pure rfl
    | var _ x e =>
      cases e <;> rw [Stmt.exec, Run.atLevel_eq]
      · exact .bind .any fun _ _ => .pure rfl
      · exact .bind .any fun _ _ => .bind .any fun _ _ => .pure rfl
    | block _ b =>
      rw [Stmt.exec, Run.atLevel_eq]
      exact .bind .any fun _ _ => .bind .any fun f _ =>
        .inFrame f (.sequence fun s hs => ih (h.of_mem hs))
    | ifElse _ c s t =>
      cases t <;> rw [Stmt.exec, Run.atLevel_eq] <;> refine .bind .any fun v _ => ?_ <;> split
      · exact ih (s := s) h
      · exact .pure rfl
      · exact ih h.1
      · exact ih h.2
    | whileLoop _ c s =>
      rw [Stmt.exec, Run.atLevel_eq]
      exact .loop _ (ih (s := s) h) fuel
    | function | classDecl =>
      rw [Stmt.exec, Run.atLevel_eq]
      exact .bind .any fun _ _ => .pure rfl
    | returning => exact h.elim

theorem interpret_cons (fuel : Nat) {s : Stmt} (h : s.Straight) (ss : List Stmt) (m : Machine) :
    interpret fuel (s :: ss) m =
      match Stmt.exec fuel s m with
      | .done _ n => interpret fuel ss n
      | .fault e n => .fault e n
      | .outOfFuel => .outOfFuel := by
  have hs := Stmt.exec_normal fuel h m
  change Run.bind (Run.bind (Stmt.exec fuel s) _) _ m = _
  unfold Run.bind
  cases hx : Stmt.exec fuel s m with
  | done a n =>
    obtain rfl := hs a n hx
    rfl
  | fault | outOfFuel => rfl

/-- Two programs one after the other run one after the other. -/
theorem interpret_append (fuel : Nat) {as : List Stmt} (h : Stmt.StraightAll as) (bs : List Stmt)
    (m : Machine) :
    interpret fuel (as ++ bs) m =
      match interpret fuel as m with
      | .done _ n => interpret fuel bs n
      | .fault e n => .fault e n
      | .outOfFuel => .outOfFuel := by
  induction as generalizing m with
  | nil => rfl
  | cons a as ih =>
    rw [List.cons_append, interpret_cons fuel h.1, interpret_cons fuel h.1]
    cases Stmt.exec fuel a m with
    | done _ n => exact ih h.2 n
    | fault | outOfFuel => rfl

end Lox
