import Lox.Proofs.Running.InStep
/-!
# Frames and calls are left again

Whatever runs leaves the frame and the depth of calls as it found them, whether it ends normally,
with a return or with a fault, and on the way the depth never exceeds its limit. Nothing is asked of
the program or of the distances. What runs to an end does so in the same way with more fuel.
-/

namespace Lox

variable {α : Type}

/-- `r`, started in `m`, goes back to the frame and the depth of `m` if it comes to an end, and the
calls on the way, which `x` traces, do not nest too deep. -/
structure Unwinds (r : Run α) (x : Traced α) (m : Machine) : Prop where
  traced : (x (.start m)).result = r m
  done : ∀ a n, r m = .done a n → n.frame = m.frame ∧ n.depth = m.depth
  fault : ∀ e n, r m = .fault e n → n.frame = m.frame ∧ n.depth = m.depth
  bounded : ∀ p ∈ (x (.start m)).state.stops, p.machine.depth ≤ m.maxDepth

/-! ### A run in step with itself -/

/-- A machine is in step with itself. -/
theorem inStep_start {b : Nat} {m : Machine} (hd : m.depth ≤ b) (hm : m.maxDepth ≤ b) :
    InStep (.trivial m.distances) .same b (.start m) ⟨m, []⟩ :=
  ⟨.start ⟨trivial, trivial, rfl, hd, hm⟩, m.like_same⟩

namespace Twins

variable {C : Condition} {b : Nat} {E : Prop} {x : Traced α} {y : Watched α} {t : Trail} {w : Watch}

/-- Two runs in step that differ in nothing have one result, unless the first is cut off. -/
theorem result_eq (h : Twins C .same b E x t y w fun a a' _ => a' = a) :
    (x t).result = (y w).result ∨ ¬ E ∧ (x t).result = .outOfFuel := by
  unfold Twins at h
  cases hx : x t with
  | done a u =>
    rw [hx] at h
    obtain ⟨-, a', v, hy, hl, rfl⟩ := h
    rw [hy]
    exact .inl (congrArg (Result.done a') (Machine.eq_of_like hl).symm)
  | fault e u =>
    rw [hx] at h
    obtain ⟨-, e', v, hy, hl, he⟩ := h
    rw [hy, Likeness.eq_of_located Likeness.exact_same.span he]
    exact .inl (congrArg (Result.fault e) (Machine.eq_of_like hl).symm)
  | cut u =>
    rw [hx] at h
    by_cases hexact : E
    · obtain ⟨v, hy, -⟩ := h.2 hexact
      rw [hy]
      exact .inl rfl
    · exact .inr ⟨hexact, rfl⟩

theorem follows {α' : Type} {L : Likeness} {y : Watched α'} {Q : α → α' → Machine → Prop}
    (h : Twins C L b E x t y w Q) : C.Follows b t (x t).state := by
  unfold Twins at h
  cases hx : x t <;> rw [hx] at h <;> exact h.1

theorem unwinds_of_erases {r : Run α} {m : Machine}
    (h : Twins (.trivial m.distances) .same m.maxDepth True x (.start m) y ⟨m,
      []⟩ fun a a' _ => a' = a)
    (hx : Faithful.Erases x r) : Unwinds r x m := by
  have htraced : (x (.start m)).result = r m := hx (.start m)
  -- Done and at a fault alike: what follows is known of the last machine, however
  -- the run came to it.
  have hf := h.follows
  refine ⟨htraced, fun a n hr => ?_, fun e n hr => ?_, fun p hp => ?_⟩
  · rw [← htraced] at hr
    cases hx : x (.start m) with
    | done a' u =>
      rw [hx] at hr hf
      cases hr
      exact ⟨hf.moves.frame, hf.moves.depth⟩
    | fault | cut =>
      rw [hx] at hr
      cases hr
  · rw [← htraced] at hr
    cases hx : x (.start m) with
    | fault e' u =>
      rw [hx] at hr hf
      cases hr
      exact ⟨hf.moves.frame, hf.moves.depth⟩
    | done | cut =>
      rw [hx] at hr
      cases hr
  · exact (hf.sound.stops p hp).ready.depth

end Twins

/-! ### Unwinding -/

/-- Programs, statements, expressions and calls leave frames and calls as they found them, from any
machine in which calls are not nested too deep already. -/
theorem unwinds (fuel : Nat) (m : Machine) (hm : m.depth ≤ m.maxDepth) :
    (∀ body, Unwinds (interpret fuel body) (traceAll fuel body) m) ∧
    (∀ s, Unwinds (Stmt.exec fuel s) (Stmt.trace fuel s) m) ∧
    (∀ e, Unwinds (Expr.eval fuel e) (Expr.trace fuel e) m) ∧
    ∀ callee vs paren, Unwinds (Run.call (Stmt.exec fuel) callee vs paren)
      (Traced.call (Stmt.trace fuel) callee vs paren) m := by
  have hC := Condition.invariant_trivial m.distances
  have hstart := inStep_start hm (Nat.le_refl _)
  have hboth :=
    twinPrograms (L := .same) (b := m.maxDepth) (E := True) hC (Nat.le_refl fuel) fun _ => rfl
  have hspan : ∀ t, Likeness.same.span t t := fun _ => rfl
  refine ⟨fun body => ?_, fun s => ?_, fun e => ?_, fun callee vs paren => ?_⟩
  · have hlike := Stmt.forall₂_like_refl hspan body (Likeness.same_fixes _)
    exact (twins_traceAll hC (Nat.le_refl fuel) (fun _ => rfl) hlike hstart (fun _ _ => trivial)
      fun _ _ => trivial).unwinds_of_erases (erases_interpretOn fuel body)
  · have hlike := s.like_refl hspan (Likeness.same_fixes _)
    exact (hboth.exec s s _ _ hlike hstart (fun _ _ => trivial) fun _ _ =>
      trivial).unwinds_of_erases
      (s.erases_execOn fuel)
  · have hlike := e.like_refl hspan (Likeness.same_fixes _)
    exact (hboth.eval e e _ _ hlike hstart fun _ _ => trivial).unwinds_of_erases
      (e.erases_evalOn fuel)
  · exact (Twins.call hC hboth.exec callee vs (hspan paren) hstart).unwinds_of_erases
      (Faithful.erases_call (Stmt.erases_execOn fuel) callee vs paren)

/-- A function that calls itself inside a block, and a call of it. -/
def recursion : List Stmt :=
  let t := Span.point .start
  let call (i : Nat) : Stmt := .expr t (.call ⟨i + 1, t⟩ (.var ⟨i, t⟩ ⟨"f", t⟩) t [])
  [.function (.mk ⟨"f", t⟩ [] [.block t [call 0]] t), .block t [call 2]]

/-- The fault of a call that nests too deep. -/
def Result.overflow? {α : Type} : Result α → Option Machine
  | .fault ⟨.stackOverflow, _⟩ m => some m
  | _ => none

/-- The fourth call overflows, and the frames of all blocks and calls are left. -/
theorem unwinds_overflow :
    ∃ e n, interpret 60 recursion (.initial .unlimited 3 fun _ => 0) = .fault e n ∧
    e.item = .stackOverflow ∧ n.frame = globals ∧ n.depth = 0 := by
  have hover : (interpret 60 recursion (.initial .unlimited 3 fun _ => 0)).overflow?.isSome := by
    decide +kernel
  have hunwinds := (unwinds 60 (.initial .unlimited 3 fun _ => 0) (by decide)).1 recursion
  cases hr : interpret 60 recursion (.initial .unlimited 3 fun _ => 0) with
  | fault e n =>
    obtain ⟨hframe, hdepth⟩ := hunwinds.fault e n hr
    refine ⟨e, n, rfl, ?_, hframe, hdepth⟩
    obtain ⟨cause, span⟩ := e
    rw [hr] at hover
    cases cause <;> first | rfl | cases hover
  | done | outOfFuel =>
    rw [hr] at hover
    cases hover

/-! ### Whole programs -/

/-- Whether a run came to a normal end. -/
def Result.isDone : Result α → Bool
  | .done _ _ => true
  | _ => false

theorem Result.exists_of_overflow {r : Result α} (h : r.overflow?.isSome) :
    ∃ e n, r = .fault e n ∧ e.item = .stackOverflow := by
  cases r with
  | done | outOfFuel => cases h
  | fault e n =>
    obtain ⟨cause, span⟩ := e
    cases cause with
    | stackOverflow => exact ⟨_, n, rfl, rfl⟩
    | _ => cases h

theorem Result.exists_of_isDone {r : Result α} (h : r.isDone) : ∃ a n, r = .done a n := by
  cases r with
  | done a n => exact ⟨a, n, rfl⟩
  | fault | outOfFuel => cases h

/-- The machine that is left where a run comes to an end. -/
def Result.machine? : Result α → Option Machine
  | .done _ m | .fault _ m => some m
  | .outOfFuel => none

theorem Ending.machine_result {x : Ending Trail α} (hx : x.result ≠ .outOfFuel) :
    x.result.machine? = some x.state.machine := by
  cases x with
  | done | fault => rfl
  | cut => exact absurd rfl hx

/-- An invariant that holds where a program starts is kept by it. -/
theorem follows_traceAll {C : Condition} (hC : C.Invariant) {b : Nat} {m : Machine}
    (hm : C.Ready b m) {body : List Stmt}
    (hfit : ∀ p ∈ Stmt.spotsAll body, C.Fits m.store m.frame p)
    (hallow : ∀ d ∈ Stmt.functionsAll body, C.Allows d) (fuel : Nat) :
    C.Follows b (.start m) (traceAll fuel body (.start m)).state := by
  have hlike := Stmt.forall₂_like_refl (L := .same) (fun _ => rfl) body (Likeness.same_fixes _)
  exact (twins_traceAll (E := True) hC (Nat.le_refl fuel) (fun _ => rfl) hlike (w := ⟨m, []⟩)
    ⟨.start hm, Machine.like_same _⟩ hfit hallow).follows

/-- A program ends in the frame and at the depth where it started, and it has only
added to the output. -/
theorem moves_traceAll (fuel : Nat) (body : List Stmt) (m : Machine) :
    (Condition.trivial m.distances).Moves (max m.depth m.maxDepth) m
      (traceAll fuel body (.start m)).state.machine := by
  have hready : (Condition.trivial m.distances).Ready (max m.depth m.maxDepth) m :=
    ⟨trivial, trivial, rfl, Nat.le_max_left _ _, Nat.le_max_right _ _⟩
  exact (follows_traceAll (Condition.invariant_trivial _) hready (fun _ _ => trivial)
    (fun _ _ => trivial) fuel).moves

/-- Statements that are run to an end keep an invariant. -/
theorem moves_sequence {C : Condition} (hC : C.Invariant) {b : Nat} {m : Machine} (hm : C.Ready b m)
    {ss : List Stmt} (hfit : ∀ p ∈ Stmt.spotsAll ss, C.Fits m.store m.frame p)
    (hallow : ∀ d ∈ Stmt.functionsAll ss, C.Allows d) {fuel : Nat} {flow : Flow} {o : Machine}
    (h : Run.sequence (Stmt.exec fuel) ss m = .done flow o) : C.Moves b m o := by
  have hlike := Stmt.forall₂_like_refl (L := .same) (fun _ => rfl) ss (Likeness.same_fixes _)
  have htwins :=
    Twins.sequence (twinPrograms (E := True) hC (Nat.le_refl fuel) fun _ => rfl).exec hlike
    (w := ⟨m, []⟩) ⟨.start hm, Machine.like_same _⟩ hfit hallow
  have hresult : (Host.sequence (Stmt.trace fuel) ss (.start m)).result = _ :=
    Faithful.erases_sequence (M := Process Trail) (Stmt.erases_execOn fuel) ss (.start m)
  rw [show Recorder.machine (Trail.start m) = m from rfl, h] at hresult
  have hfollows := htwins.follows
  cases hx : Host.sequence (Stmt.trace fuel) ss (.start m) with
  | done a t =>
    rw [hx] at hresult hfollows
    cases hresult
    exact hfollows.moves
  | fault | cut =>
    rw [hx] at hresult
    cases hresult

/-- A program that comes to an end does so in the same way with more fuel. -/
theorem interpret_mono {fuel fuel' : Nat} (hf : fuel ≤ fuel') (body : List Stmt) (m : Machine)
    (h : interpret fuel body m ≠ .outOfFuel) : interpret fuel' body m = interpret fuel body m := by
  have hC := Condition.invariant_trivial m.distances
  have hstart :=
    inStep_start (Nat.le_max_left m.depth m.maxDepth) (Nat.le_max_right m.depth m.maxDepth)
  have hlike := Stmt.forall₂_like_refl (L := .same) (fun _ => rfl) body (Likeness.same_fixes _)
  have hmore := (twins_traceAll (E := False) hC hf False.elim hlike hstart (fun _ _ => trivial)
    fun _ _ => trivial).result_eq
  rw [result_watchAll, result_traceAll] at hmore
  exact (hmore.resolve_right fun hcut => h hcut.2).symm

end Lox
