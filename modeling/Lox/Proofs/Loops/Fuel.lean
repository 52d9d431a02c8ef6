import Lox.Proofs.Loops.Direct
import Lox.Proofs.Running.Unwinding
/-!
# The fuel of a loop

The statements that a loop stands for nest deeper than the loop itself, so they need a little more
fuel. With enough of it they run as the loop does but for the frame that each round has where
there is an increment.
-/

namespace Lox

variable {α β : Type}

/-- Where `x` comes to an end, `y` ends in the same way. -/
def Run.Below (x y : Run α) : Prop := ∀ m, x m ≠ .outOfFuel → y m = x m

namespace Run.Below

variable {x y z : Run α}

theorem refl (x : Run α) : x.Below x := fun _ _ => rfl

theorem cut (y : Run α) : Run.Below Run.outOfFuel y := fun _ h => absurd rfl h

theorem bind {f g : α → Run β} (h : x.Below y) (hf : ∀ a, (f a).Below (g a)) :
    (x >>= f).Below (y >>= g) := by
  intro m hm
  change Run.bind x f m ≠ .outOfFuel at hm
  change Run.bind y g m = Run.bind x f m
  unfold Run.bind at *
  cases hx : x m with
  | done a n =>
    rw [hx] at hm
    rw [h m (by rw [hx]; nofun), hx]
    exact hf a n hm
  | fault e n => rw [h m (by rw [hx]; nofun), hx]
  | outOfFuel =>
    rw [hx] at hm
    exact absurd rfl hm

theorem map (f : α → β) (h : x.Below y) : (f <$> x).Below (f <$> y) := h.bind fun _ => .refl _

theorem inFrame (f : FrameId) (h : x.Below y) : (Run.inFrame f x).Below (Run.inFrame f y) := by
  intro m hm
  unfold Run.inFrame at *
  dsimp only at *
  cases hx : x { m with frame := f } with
  | outOfFuel =>
    rw [hx] at hm
    exact absurd rfl hm
  | done | fault => rw [h _ (by rw [hx]; nofun), hx]

theorem inScope (h : x.Below y) : x.inScope.Below y.inScope :=
  (Below.refl _).bind fun _ => (Below.refl _).bind fun f => h.inFrame f

theorem andThen {x x' y y' : Run Flow} (hx : x.Below x') (hy : y.Below y') :
    (x.andThen y).Below (x'.andThen y') := by
  refine hx.bind fun flow => ?_
  cases flow with
  | normal => exact hy
  | returned v => exact .refl _

theorem loop {test test' : Run Bool} {body body' : Run Flow} (ht : test.Below test')
    (hb : body.Below body') {k k' : Nat} (hk : k ≤ k') :
    (Run.loop test body k).Below (Run.loop test' body' k') := by
  induction k generalizing k' with
  | zero => exact cut _
  | succ k ih =>
    obtain ⟨k', rfl⟩ := Nat.exists_eq_add_of_lt hk
    refine ht.bind fun b => ?_
    cases b with
    | false => exact .refl _
    | true => exact hb.andThen (ih (Nat.le_add_right k k'))

end Run.Below

theorem Run.andThen_normal (x : Run Flow) : x.andThen (pure .normal) = x := by
  funext m
  change Run.bind x _ m = x m
  unfold Run.bind
  cases x m with
  | done flow n => cases flow <;> rfl
  | fault | outOfFuel => rfl

theorem Run.sequence_pair {f : α → Run Flow} (a b : α) :
    Run.sequence f [a, b] = (f a).andThen (f b) :=
  congrArg (Run.andThen (f a)) (Run.andThen_normal (f b))

/-! ### Statements and expressions -/

namespace Stmt

variable (fuel : Nat) (t : Span)

theorem exec_expr (e : Expr) :
    Stmt.exec (fuel + 1) (.expr t e) = e.eval fuel >>= fun _ => pure .normal := by
  simp only [Stmt.exec, Run.atLevel_eq]

theorem exec_block_eq_inScope (b : List Stmt) :
    Stmt.exec (fuel + 1) (.block t b) = (Run.sequence (Stmt.exec fuel) b).inScope := by
  simp only [Stmt.exec, Run.atLevel_eq, Run.inScope]

theorem exec_whileLoop (c : Expr) (s : Stmt) :
    Stmt.exec (fuel + 1) (.whileLoop t c s) =
      Run.loop (Value.isTruthy <$> c.eval fuel) (s.exec fuel) fuel := by
  simp only [Stmt.exec, Run.atLevel_eq]

end Stmt

section

variable {fuel fuel' : Nat} (hf : fuel ≤ fuel')

/-- A run that has less fuel than another and is in step with it, the first traced and
the second watched. -/
theorem Twins.below {x : Traced α} {y : Watched α} {r r' : Run α} (hx : Faithful.Erases x r)
    (hy : Faithful.Erases y r')
    (h : ∀ m b, InStep (.trivial m.distances) .same b (.start m) ⟨m, []⟩ →
      Twins (.trivial m.distances) .same b False x (.start m) y ⟨m, []⟩ fun a a' _ => a' = a) :
    r.Below r' := by
  intro m hm
  have hmore :=
    (h m _ (inStep_start (Nat.le_max_left m.depth m.maxDepth) (Nat.le_max_right _ _))).result_eq
  have hx : (x (.start m)).result = r m := hx (.start m)
  have hy : (y ⟨m, []⟩).result = r' m := hy ⟨m, []⟩
  rw [hx, hy] at hmore
  exact (hmore.resolve_right fun hcut => hm hcut.2).symm

include hf

/-- A statement that comes to an end does so in the same way with more fuel. -/
theorem Stmt.exec_below (s : Stmt) : (s.exec fuel).Below (s.exec fuel') := by
  refine Twins.below (x := s.trace fuel) (s.erases_execOn fuel)
    (s.erases_execOn fuel') fun m b hstart => ?_
  have hC := Condition.invariant_trivial m.distances
  have hlike := s.like_refl (L := .same) (fun _ => rfl) (Likeness.same_fixes _)
  exact (twinPrograms hC hf False.elim).exec s s _ _ hlike hstart
    (fun _ _ => trivial) fun _ _ => trivial

/-- So does an expression. -/
theorem Expr.eval_below (e : Expr) : (e.eval fuel).Below (e.eval fuel') := by
  refine Twins.below (x := e.trace fuel) (e.erases_evalOn fuel)
    (e.erases_evalOn fuel') fun m b hstart => ?_
  have hC := Condition.invariant_trivial m.distances
  have hlike := e.like_refl (L := .same) (fun _ => rfl) (Likeness.same_fixes _)
  exact (twinPrograms hC hf False.elim).eval e e _ _ hlike hstart fun _ _ => trivial

end

/-! ### The statements that a loop stands for -/

namespace ForLoop

variable (l : ForLoop) (always : Site) {fuel fuel' : Nat}

/-- A round of the statements that the loop stands for: with an increment it has a
scope of its own. -/
def blockRound (fuel : Nat) : Run Flow :=
  if l.increment.isSome then (l.round fuel).inScope else l.round fuel

/-- Runs the statements that the loop stands for, all parts with the same fuel. -/
def runBlocks (fuel : Nat) : Run Flow :=
  let rounds := Run.loop (l.test fuel) (l.blockRound fuel) fuel
  match l.initial with
  | none => rounds
  | some s => .inScope ((s.exec fuel).andThen rounds)

/-- The condition of the statements that the loop stands for. -/
def holds (always : Site) : Expr := l.condition.getD (.literal always (.bool true))

/-- The body of the `while` loop among them. -/
def inner : Stmt :=
  match l.increment with
  | some e => .block l.span [l.body, .expr e.span e]
  | none => l.body

variable {l always}

private theorem test_below (hf : fuel ≤ fuel') :
    Run.Below (Value.isTruthy <$> (l.holds always).eval fuel) (l.test fuel') := by
  unfold holds test
  cases l.condition with
  | some e => exact (e.eval_below hf).map _
  | none =>
    cases fuel with
    | zero => exact .cut _
    | succ fuel =>
      simp only [Expr.eval, Run.atLevel_eq, Option.getD_none]
      exact .refl _

private theorem below_test (hf : fuel + 1 ≤ fuel') :
    Run.Below (l.test fuel) (Value.isTruthy <$> (l.holds always).eval fuel') := by
  unfold holds test
  cases l.condition with
  | some e => exact (e.eval_below (Nat.le_of_succ_le hf)).map _
  | none =>
    obtain ⟨k, rfl⟩ := Nat.exists_eq_add_of_lt hf
    simp only [Expr.eval, Run.atLevel_eq, Option.getD_none]
    exact .refl _

theorem exec_inner (fuel : Nat) {e : Expr} (he : l.increment = some e) :
    Stmt.exec (fuel + 1) l.inner =
      .inScope ((l.body.exec fuel).andThen (Stmt.exec fuel (.expr e.span e))) := by
  rw [inner, he, Stmt.exec_block_eq_inScope, Run.sequence_pair]

private theorem inner_below (hf : fuel ≤ fuel') :
    (Stmt.exec fuel l.inner).Below (l.blockRound fuel') := by
  cases he : l.increment with
  | none =>
    simp only [inner, blockRound, round, advance, he, Option.isSome_none, Bool.false_eq_true,
      if_false, Run.andThen_normal]
    exact l.body.exec_below hf
  | some e =>
    cases fuel with
    | zero => exact .cut _
    | succ fuel =>
      rw [exec_inner fuel he]
      simp only [blockRound, round, advance, he, Option.isSome_some, if_true]
      refine ((l.body.exec_below (by omega)).andThen ?_).inScope
      cases fuel with
      | zero => exact .cut _
      | succ fuel =>
        rw [Stmt.exec_expr]
        exact (e.eval_below (by omega)).bind fun _ => .refl _

private theorem below_inner (hf : fuel + 2 ≤ fuel') :
    (l.blockRound fuel).Below (Stmt.exec fuel' l.inner) := by
  cases he : l.increment with
  | none =>
    simp only [inner, blockRound, round, advance, he, Option.isSome_none, Bool.false_eq_true,
      if_false, Run.andThen_normal]
    exact l.body.exec_below (by omega)
  | some e =>
    obtain ⟨k, rfl⟩ := Nat.exists_eq_add_of_le hf
    rw [show fuel + 2 + k = fuel + k + 1 + 1 by omega, exec_inner _ he, Stmt.exec_expr]
    simp only [blockRound, round, advance, he, Option.isSome_some, if_true]
    exact ((l.body.exec_below (by omega)).andThen ((e.eval_below (by omega)).bind fun _ =>
      .refl _)).inScope

theorem desugared_eq : l.desugared always =
    match l.initial with
    | some s => .block l.span [s, .whileLoop l.span (l.holds always) l.inner]
    | none => .whileLoop l.span (l.holds always) l.inner := rfl

theorem desugared_below (fuel : Nat) :
    ((l.desugared always).exec fuel).Below (l.runBlocks fuel) := by
  have hwhile : ∀ k ≤ fuel, (Stmt.exec k (.whileLoop l.span (l.holds always) l.inner)).Below
      (Run.loop (l.test fuel) (l.blockRound fuel) fuel) := by
    intro k hk
    cases k with
    | zero => exact .cut _
    | succ k =>
      rw [Stmt.exec_whileLoop]
      exact .loop (test_below (by omega)) (inner_below (by omega)) (by omega)
  rw [desugared_eq, runBlocks]
  cases l.initial with
  | none => exact hwhile fuel (Nat.le_refl fuel)
  | some s =>
    cases fuel with
    | zero => exact .cut _
    | succ fuel =>
      dsimp only
      rw [Stmt.exec_block_eq_inScope, Run.sequence_pair]
      exact ((s.exec_below (Nat.le_succ fuel)).andThen (hwhile fuel (Nat.le_succ fuel))).inScope

theorem below_desugared (always : Site) (fuel : Nat) :
    (l.runBlocks fuel).Below ((l.desugared always).exec (fuel + 4)) := by
  have hwhile : ∀ k, fuel + 3 ≤ k → (Run.loop (l.test fuel) (l.blockRound fuel) fuel).Below
      (Stmt.exec k (.whileLoop l.span (l.holds always) l.inner)) := by
    intro k hk
    obtain ⟨j, rfl⟩ := Nat.exists_eq_add_of_lt hk
    rw [Stmt.exec_whileLoop]
    exact .loop (below_test (by omega)) (below_inner (by omega)) (by omega)
  rw [desugared_eq, runBlocks]
  cases l.initial with
  | none => exact hwhile _ (Nat.le_succ _)
  | some s =>
    dsimp only
    rw [Stmt.exec_block_eq_inScope, Run.sequence_pair]
    exact ((s.exec_below (Nat.le_add_right fuel 3)).andThen (hwhile _ (Nat.le_refl _))).inScope

/-- A loop that comes to an end does so in the same way with more fuel. -/
theorem run_below (hf : fuel ≤ fuel') : (l.run fuel).Below (l.run fuel') := by
  have htest : (l.test fuel).Below (l.test fuel') := by
    unfold test
    cases l.condition with
    | none => exact .refl _
    | some e => exact (e.eval_below hf).map _
  have hadvance : (l.advance fuel).Below (l.advance fuel') := by
    unfold advance
    cases l.increment with
    | none => exact .refl _
    | some e => exact (e.eval_below hf).bind fun _ => .refl _
  have hrounds : (l.rounds fuel).Below (l.rounds fuel') :=
    .loop htest ((l.body.exec_below hf).andThen hadvance) hf
  unfold run
  cases l.initial with
  | none => exact hrounds
  | some s => exact ((s.exec_below hf).andThen hrounds).inScope

end ForLoop

end Lox
