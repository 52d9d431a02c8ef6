import Lox.Proofs.Running.Returning
import Lox.Proofs.Session.Numbers
/-!
# Returns in sessions

Nothing returns from a source that is accepted: it runs to its end, statement after statement, or to
a fault. A return in a function ends the innermost call, in every session that can be reached.
-/

namespace Lox

open Run

/-- How statements run one after the other: all of them end normally, or the first that does not
ends the run, and does so with a fault or because its fuel is used up. -/
inductive Run.InOrder (exec : Stmt → Run Flow) (ss : List Stmt) (m : Machine) :
    Result Unit → Prop where
  | done {n : Machine} : Completes exec ss m n → InOrder exec ss m (.done () n)
  | fault {before after : List Stmt} {s : Stmt} {n o : Machine} {e : Fault} : ss =
      before ++ s :: after →
    Completes exec before m n → exec s n = .fault e o → InOrder exec ss m (.fault e o)
  | outOfFuel {before after : List Stmt} {s : Stmt} {n : Machine} : ss = before ++ s :: after →
    Completes exec before m n → exec s n = .outOfFuel → InOrder exec ss m .outOfFuel

/-- A program in which nothing returns runs in order. -/
theorem Stmt.StraightAll.inOrder {ss : List Stmt} (h : Stmt.StraightAll ss) (fuel : Nat)
    (m : Machine) : InOrder (Stmt.exec fuel) ss m (interpret fuel ss m) := by
  have hinterpret : interpret fuel ss m = (sequence (Stmt.exec fuel) ss m).andThen fun _ =>
      pure () := rfl
  rw [hinterpret]
  rcases sequence_cases (Stmt.exec fuel) ss m with ⟨n, hn⟩ | ⟨before, s, after, n, rfl,
    hn, hstop, heq⟩
  · rw [hn.sequence]
    exact .done hn
  · rw [heq]
    cases hs : Stmt.exec fuel s n with
    | done flow o =>
      have hstraight : s.Straight := h.of_mem (List.mem_append_right _ List.mem_cons_self)
      obtain rfl := Stmt.exec_normal fuel hstraight n flow o hs
      exact absurd hs (hstop o)
    | fault e o => exact .fault rfl hn hs
    | outOfFuel => exact .outOfFuel rfl hn hs

namespace Session

variable {h : List (SourceFile × Analysis)} {s : Session} {f : SourceFile}

/-- The machine of a session is reached by running the programs that were accepted. -/
theorem Reaches.reached (hs : Reaches h s) : s.machine.Reached (h.map (·.2.program.body)) := by
  induction hs with
  | initial output maxDepth clock => exact .initial output maxDepth clock
  | @run h s t fuel f o _ hr ih =>
    cases he : (Analysis.ofFile f s.nextId).errors.hasErrors with
    | true =>
      rw [run_eq, he] at hr
      cases hr
      rwa [show s.accepted f = [] by simp [accepted, he]]
    | false =>
      rw [accepted_eq he]
      have hmachine : (interpret fuel (Analysis.ofFile f s.nextId).program.body
          (s.machine.addDistances (Analysis.ofFile f s.nextId).distances)).machine? =
            some t.machine := by
        unfold Session.run at hr
        dsimp only at hr
        rw [he, if_neg (by decide)] at hr
        cases hx : interpret fuel (Analysis.ofFile f s.nextId).program.body
          (s.machine.addDistances (Analysis.ofFile f s.nextId).distances) with
        | done | fault =>
          rw [hx] at hr
          cases hr
          rfl
        | outOfFuel =>
          rw [hx] at hr
          cases hr
      exact .run _ ih (Analysis.namesPlain f s.nextId) hmachine

/-- In every session that can be reached, nothing returns from an accepted source, whatever machine
its statements run in. It runs in order, to its end or to the first fault. At every stop of the run,
in the body of whatever a call enters there, a return that is reached with a value in a statement
after others that end normally ends this call: it is answered, and the caller goes on in its frame
and at its depth, with all else as it was when the value was there. -/
theorem Reaches.returns_stay (hs : Reaches h s)
    (he : (Analysis.ofFile f s.nextId).errors.hasErrors = false) (fuel : Nat) :
    let body := (Analysis.ofFile f s.nextId).program.body
    (∀ st ∈ body, ∀ k m v n, Stmt.exec k st m ≠ .done (.returned v) n) ∧
    InOrder (Stmt.exec fuel) body (s.entry f) (interpret fuel body (s.entry f)) ∧
    ∀ p ∈ s.stops fuel f, ∀ callee c g, Enters p.machine callee c g →
    ∀ k vs paren before st after n v o,
      vs.length = c.decl.parameters.length → p.machine.depth < p.machine.maxDepth →
      c.decl.body = before ++ st :: after → Completes (Stmt.exec k) before (g.inBody c vs) n →
      Raises k st n v o →
      ∃ w, c.Answers g.store (.returned v) w ∧ Run.call (Stmt.exec k) callee vs paren p.machine =
        .done (callee.handBack p.machine w)
          { o with frame := p.machine.frame, depth := p.machine.depth } := by
  intro body
  have hstraight : Stmt.StraightAll body :=
    Analysis.straightAll ((Analysis.accepted_iff f s.nextId).mp he)
  refine ⟨fun st hst k m v n hr => ?_, hstraight.inOrder fuel (s.entry f), ?_⟩
  · cases Stmt.exec_normal k (hstraight.of_mem hst) m _ n hr
  · intro p hp callee c g hcall k vs paren before st after n v o hn hd hbody hbefore hst
    have hplain := Analysis.namesPlain f s.nextId
    have hfollows := hs.reached.binds.follows hplain (Analysis.ofFile f s.nextId).distances fuel
    have hbinds := (hfollows.sound.stops p (mem_stops hp).2).ready.good.2
    exact hcall.call_raises hbinds hn hd hbody hbefore hst

/-- A function that returns from inside a block inside of a loop. -/
def returningSource : SourceFile :=
  ⟨"returning.lox",
    "fun f(x) { while (true) { if (x) { return x; } else print x; } } print f(true);"⟩

/-- Whether a result returns `true`. -/
def returnsTrue : Result Flow → Bool
  | .done (.returned (.bool b)) _ => b
  | _ => false

private theorem exists_of_returnsTrue {r : Result Flow} (h : returnsTrue r) :
    ∃ o, r = .done (.returned (.bool true)) o := by
  unfold returnsTrue at h
  split at h
  · exact ⟨_, by rw [h]⟩
  · cases h

/-- Whether the body of the first function, called with `true`, returns that. -/
def firstReturnsTrue (m : Machine) : Bool :=
  decide (m.depth < m.maxDepth) && (m.store.functions[0]?).any fun c =>
    c.decl.parameters.length == 1 && !c.isInitializer &&
      returnsTrue (sequence (Stmt.exec 20) c.decl.body
        ({ m with depth := m.depth + 1 }.inBody c [.bool true]))

/-- The return inside the loop ends the call, which gives its value to the caller. -/
theorem returns_stay_loop : ∃ p ∈ (Session.initial fun _ => 0).stops 60 returningSource,
    ∃ n, Run.call (Stmt.exec 20) (.function 0) [.bool true] (.point .start) p.machine =
      .done (.bool true) n ∧
      n.frame = p.machine.frame ∧ n.depth = p.machine.depth := by
  have hany :
      ((Session.initial fun _ => 0).stops 60 returningSource).any (firstReturnsTrue ·.machine) =
        true := by
    decide +kernel
  have he : (Analysis.ofFile returningSource 0).errors.hasErrors = false := by decide +kernel
  obtain ⟨p, hp, htest⟩ := List.any_eq_true.mp hany
  have hreturns := (Reaches.returns_stay (.initial _ _ _) he 60).2.2 p hp
  obtain ⟨hd, htest⟩ := (Bool.and_eq_true _ _).mp htest
  obtain ⟨c, hc, htest⟩ := (Option.any_eq_true _ _).mp htest
  obtain ⟨htest, hbody⟩ := (Bool.and_eq_true _ _).mp htest
  obtain ⟨hn, hinit⟩ := (Bool.and_eq_true _ _).mp htest
  obtain ⟨o, ho⟩ := exists_of_returnsTrue hbody
  obtain ⟨before, st, after, n, heq, hbefore, hst⟩ := sequence_returned_iff.mp ho
  obtain ⟨w, hw, hcall⟩ :=
    hreturns _ c _ (.function hc) 20 [.bool true] (.point .start) before st after n _ o
    (eq_of_beq hn).symm (of_decide_eq_true hd) heq hbefore (Stmt.exec_returned_iff.mp hst)
  cases hw with
  | value => exact ⟨p, hp, _, hcall, rfl, rfl⟩
  | receiver htrue =>
    rw [htrue] at hinit
    cases hinit

end Session

end Lox
