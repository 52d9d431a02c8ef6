import Lox.Proofs.Running.Alike
import Lox.Proofs.Running.Answers
/-!
# Returns

A return leaves the blocks, the branches and the loops around it, and nothing runs on the way out of
them. It ends the innermost call, which answers, and the caller of which goes on.
-/

namespace Lox

variable {α : Type}

namespace Run

variable {f : α → Run Flow} {as bs : List α} {test : Run Bool} {body : Run Flow} {m n o : Machine}
  {v : Value}

/-- One after the other ends normally. -/
inductive Completes (f : α → Run Flow) : List α → Machine → Machine → Prop where
  | nil (m : Machine) : Completes f [] m m
  | cons {a : α} {as : List α} {m n o : Machine} : f a m = .done .normal n → Completes f as n o →
    Completes f (a :: as) m o

/-- The loop goes round so many times. -/
inductive Rounds (test : Run Bool) (body : Run Flow) : Nat → Machine → Machine → Prop where
  | zero (m : Machine) : Rounds test body 0 m m
  | succ {k : Nat} {m n o p : Machine} : test m = .done true n → body n = .done .normal o →
    Rounds test body k o p → Rounds test body (k + 1) m p

/-- What comes after statements that end normally runs next. -/
theorem Completes.sequence_append (h : Completes f as m n) (bs : List α) :
    sequence f (as ++ bs) m = sequence f bs n := by
  induction h with
  | nil => rfl
  | cons ha _ ih =>
    rw [List.cons_append, sequence, bind_eq, ha]
    exact ih

theorem Completes.sequence (h : Completes f as m n) : sequence f as m = .done .normal n := by
  have happend := h.sequence_append []
  rwa [List.append_nil] at happend

/-- Either all of the statements end normally, or the first that does not decides how they end. -/
theorem sequence_cases (f : α → Run Flow) (as : List α) (m : Machine) :
    (∃ n, Completes f as m n) ∨
      ∃ before a after n, as = before ++ a :: after ∧ Completes f before m n ∧
        (∀ o, f a n ≠ .done .normal o) ∧ Run.sequence f as m = f a n := by
  induction as generalizing m with
  | nil => exact .inl ⟨m, .nil m⟩
  | cons a as ih =>
    rw [Run.sequence, bind_eq]
    cases ha : f a m with
    | done flow n =>
      cases flow with
      | normal =>
        rcases ih n with ⟨o, ho⟩ | ⟨before, b, after, k, rfl, hk, hb, heq⟩
        · exact .inl ⟨o, .cons ha ho⟩
        · exact .inr ⟨a :: before, b, after, k, rfl, .cons ha hk, hb, heq⟩
      | returned v => exact .inr ⟨[], a, as, m, rfl, .nil m, by rw [ha]; nofun, by rw [ha]; rfl⟩
    | fault e n => exact .inr ⟨[], a, as, m, rfl, .nil m, by rw [ha]; nofun, by rw [ha]; rfl⟩
    | outOfFuel => exact .inr ⟨[], a, as, m, rfl, .nil m, by rw [ha]; nofun, by rw [ha]; rfl⟩

/-- What is returned by statements is returned by one of them. -/
theorem sequence_returned_iff :
    Run.sequence f as m = .done (.returned v) o ↔
      ∃ before a after n, as = before ++ a :: after ∧ Completes f before m n ∧
      f a n = .done (.returned v) o := by
  constructor
  · intro h
    rcases sequence_cases f as m with ⟨n, hn⟩ | ⟨before, a, after, n, has, hn, -, heq⟩
    · rw [hn.sequence] at h
      cases h
    · exact ⟨before, a, after, n, has, hn, heq ▸ h⟩
  · rintro ⟨before, a, after, n, rfl, hn, ha⟩
    rw [hn.sequence_append, Run.sequence, bind_eq, ha]
    rfl

/-- What is returned by a loop is returned in one of its rounds. -/
theorem loop_returned_iff {k : Nat} :
    loop test body k m = .done (.returned v) o ↔
      ∃ i n n', i < k ∧ Rounds test body i m n ∧ test n = .done true n' ∧
      body n' = .done (.returned v) o := by
  induction k generalizing m with
  | zero => exact ⟨nofun, fun ⟨i, _, _, hi, _⟩ => absurd hi (Nat.not_lt_zero i)⟩
  | succ k ih =>
    rw [loop, bind_eq]
    constructor
    · intro h
      obtain ⟨b, n, ht, h⟩ := Result.andThen_eq_done.mp h
      cases b with
      | false => cases h
      | true =>
        rw [if_pos rfl, bind_eq] at h
        obtain ⟨flow, n', hb, h⟩ := Result.andThen_eq_done.mp h
        cases flow with
        | returned w => exact ⟨0, m, n, k.succ_pos, .zero m, ht, h ▸ hb⟩
        | normal =>
          obtain ⟨i, p, p', hi, hrounds, htest, hbody⟩ := ih.mp h
          exact ⟨i + 1, p, p', Nat.succ_lt_succ hi, .succ ht hb hrounds, htest, hbody⟩
    · rintro ⟨i, n, n', hi, hrounds, htest, hbody⟩
      cases hrounds with
      | zero =>
        rw [htest, Result.andThen_done, if_pos rfl, bind_eq, hbody]
        rfl
      | succ ht hb hrounds =>
        rw [ht, Result.andThen_done, if_pos rfl, bind_eq, hb]
        exact ih.mpr ⟨_, n, n', Nat.lt_of_succ_lt_succ hi, hrounds, htest, hbody⟩

end Run

open Run

/-- A return in the statement, at whatever depth of blocks, branches and loops, is reached
with the value `v`. The last machine is the one in which the value was there, back in the
frame of the statement. -/
inductive Raises : Nat → Stmt → Machine → Value → Machine → Prop where
  | bare {fuel : Nat} {t k : Span} {m : Machine} : Raises (fuel + 1) (.returning t k none) m .nil m
  | value {fuel : Nat} {t k : Span} {e : Expr} {m n : Machine} {v : Value} :
      Expr.eval fuel e m = .done v n →
    Raises (fuel + 1) (.returning t k (some e)) m v n
  | block {fuel : Nat} {t : Span} {before after : List Stmt} {s : Stmt}
      {m n o : Machine} {v : Value} :
    Completes (Stmt.exec fuel) before
      { m with store := (m.store.addScope (some m.frame)).2, frame := m.store.frames.size } n →
    Raises fuel s n v o →
    Raises (fuel + 1) (.block t (before ++ s :: after)) m v { o with frame := m.frame }
  | yes {fuel : Nat} {t : Span} {c : Expr} {s : Stmt} {no : Option Stmt} {m n o : Machine}
      {v w : Value} :
    Expr.eval fuel c m = .done w n → w.isTruthy = true → Raises fuel s n v o →
    Raises (fuel + 1) (.ifElse t c s no) m v o
  | no {fuel : Nat} {t : Span} {c : Expr} {yes s : Stmt} {m n o : Machine} {v w : Value} :
    Expr.eval fuel c m = .done w n → w.isTruthy = false → Raises fuel s n v o →
    Raises (fuel + 1) (.ifElse t c yes (some s)) m v o
  | loop {fuel i : Nat} {t : Span} {c : Expr} {s : Stmt} {m n n' o : Machine}
      {v : Value} : i < fuel →
    Rounds (Value.isTruthy <$> Expr.eval fuel c) (Stmt.exec fuel s) i m n →
    (Value.isTruthy <$> Expr.eval fuel c) n = .done true n' → Raises fuel s n' v o →
    Raises (fuel + 1) (.whileLoop t c s) m v o

variable {fuel : Nat} {s : Stmt} {m n o g : Machine} {v : Value} {body : List Stmt}

private theorem Raises.not_straight (h : Raises fuel s m v o) : ¬ s.Straight := by
  induction h with
  | bare | value => exact id
  | block _ _ ih =>
    exact fun hs => ih (Stmt.StraightAll.of_mem hs (List.mem_append_right _ List.mem_cons_self))
  | @yes _ _ _ _ no _ _ _ _ _ _ _ _ ih =>
    cases no with
    | none => exact ih
    | some => exact fun hs => ih hs.1
  | no _ _ _ ih => exact fun hs => ih hs.2
  | loop _ _ _ _ ih => exact ih

private theorem Stmt.exec_block (fuel : Nat) (t : Span) (b : List Stmt) (m : Machine) :
    Stmt.exec (fuel + 1) (.block t b) m =
      (sequence (Stmt.exec fuel) b
        { m with store := (m.store.addScope (some m.frame)).2, frame := m.store.frames.size }).on
        ({ · with frame := m.frame }) := by
  rw [Stmt.exec, atLevel_eq]
  rfl

private theorem Stmt.exec_ifElse (fuel : Nat) (t : Span) (c : Expr) (yes : Stmt) (no : Option Stmt)
    (m : Machine) :
    Stmt.exec (fuel + 1) (.ifElse t c yes no) m = (Expr.eval fuel c m).andThen fun w =>
      if w.isTruthy then Stmt.exec fuel yes else no.elim (pure .normal) (Stmt.exec fuel) := by
  cases no <;> rw [Stmt.exec, atLevel_eq, bind_eq] <;> rfl

/-- Whatever a statement returns, a return in it was reached with. -/
theorem Stmt.exec_returned_iff :
    Stmt.exec fuel s m = .done (.returned v) o ↔ Raises fuel s m v o := by
  induction fuel generalizing s m o v with
  | zero =>
    refine ⟨fun h => ?_, nofun⟩
    cases h
  | succ fuel ih =>
    -- What has no return in it ends normally, and there is no way to reach one in it.
    have hstraight (hs : s.Straight) : Stmt.exec (fuel + 1) s m = .done (.returned v) o ↔
        Raises (fuel + 1) s m v o :=
      ⟨fun h => absurd (Stmt.exec_normal (fuel + 1) hs m _ o h) nofun,
        fun h => absurd hs h.not_straight⟩
    cases s with
    | expr | print | var | function | classDecl => exact hstraight trivial
    | returning t k e =>
      cases e with
      | none =>
        rw [Stmt.exec, atLevel_eq]
        constructor
        · intro h
          cases h
          exact .bare
        · intro h
          cases h
          rfl
      | some e =>
        rw [Stmt.exec, atLevel_eq, bind_eq]
        constructor
        · intro h
          obtain ⟨w, n, he, h⟩ := Result.andThen_eq_done.mp h
          cases h
          exact .value he
        · intro h
          cases h with
          | value he =>
            rw [he]
            rfl
    | block t b =>
      rw [Stmt.exec_block]
      constructor
      · intro h
        obtain ⟨n, hr, rfl⟩ := Result.on_eq_done.mp h
        obtain ⟨before, s, after, k, rfl, hk, hs⟩ := sequence_returned_iff.mp hr
        exact .block hk (ih.mp hs)
      · intro h
        cases h with
        | block hk hs =>
          rw [sequence_returned_iff.mpr ⟨_, _, _, _, rfl, hk, ih.mpr hs⟩]
          rfl
    | ifElse t c yes no =>
      rw [Stmt.exec_ifElse]
      constructor
      · intro h
        obtain ⟨w, n, hc, h⟩ := Result.andThen_eq_done.mp h
        cases hw : w.isTruthy with
        | true =>
          rw [hw, if_pos rfl] at h
          exact .yes hc hw (ih.mp h)
        | false =>
          rw [hw, if_neg (by decide)] at h
          cases no with
          | none => cases h
          | some s => exact .no hc hw (ih.mp h)
      · intro h
        cases h with
        | yes hc hw hs =>
          rw [hc, Result.andThen_done, hw, if_pos rfl]
          exact ih.mpr hs
        | no hc hw hs =>
          rw [hc, Result.andThen_done, hw, if_neg (by decide)]
          exact ih.mpr hs
    | whileLoop t c b =>
      rw [Stmt.exec, atLevel_eq, loop_returned_iff]
      constructor
      · rintro ⟨i, n, n', hi, hrounds, htest, hbody⟩
        exact .loop hi hrounds htest (ih.mp hbody)
      · intro h
        cases h with
        | loop hi hrounds htest hbody => exact ⟨_, _, _, hi, hrounds, htest, ih.mpr hbody⟩

/-- A return in the body of what is entered ends the call. -/
theorem Run.Enters.call_raises {F : FunctionDecl → Prop} {callee : Value} {c : Closure}
    {vs : List Value} {paren : Span} {before after : List Stmt} (h : Run.Enters m callee c g)
    (hm : m.store.Binds F) (hn : vs.length = c.decl.parameters.length) (hd : m.depth < m.maxDepth)
    (hbody : c.decl.body = before ++ s :: after)
    (hbefore : Completes (Stmt.exec fuel) before (g.inBody c vs) n) (hs : Raises fuel s n v o) :
    ∃ w, c.Answers g.store (.returned v) w ∧ Run.call (Stmt.exec fuel) callee vs paren m =
      .done (callee.handBack m w) { o with frame := m.frame, depth := m.depth } := by
  have hreturned : Run.sequence (Stmt.exec fuel) c.decl.body (g.inBody c vs) =
      .done (.returned v) o :=
    hbody ▸ sequence_returned_iff.mpr ⟨before, s, after, n, rfl, hbefore,
      Stmt.exec_returned_iff.mpr hs⟩
  exact h.call_done hm hn hd hreturned paren

end Lox
