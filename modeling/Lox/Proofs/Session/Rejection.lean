import Lox.Proofs.Likeness.Programs
import Lox.Proofs.Likeness.Walking
import Lox.Proofs.Session.Numbers
/-!
# Sources that are rejected

A source that is rejected is not run. All that it changes is the number of runs and the next number,
so that the expressions of later sources get greater numbers. But nothing depends on what the
numbers are, only on which of them are the same.
-/

namespace Lox

/-! ### Greater numbers -/

/-- The numbers from `n` on are greater by `k`. -/
def Likeness.raised (n k : Nat) : Likeness :=
  .agreeing Eq fun i i' => i < n ∧ i' = i ∨ n ≤ i ∧ i' = i + k

namespace Likeness

variable (n k : Nat)

private theorem numbers_raised : (raised n k).Numbers fun i i' => n ≤ i ∧ i' = i + k where
  id h := .inr h
  succ h := ⟨Nat.le_succ_of_le h.1, by rw [h.2, Nat.add_right_comm]⟩
  merge := by
    rintro s _ t _ rfl rfl
    rfl

private theorem records_raised : (raised n k).Records (raised n k).distances := by
  intro d d' i i' m hd hi j j' hj
  have hij : i' = j' ↔ i = j := by
    have hi : i < n ∧ i' = i ∨ n ≤ i ∧ i' = i + k := hi
    omega
  rw [Distances.get?_insert, Distances.get?_insert, hd j j' hj]
  simp only [hij]

variable {n k}

theorem eq_of_raised {α : Type} {e e' : Lox.Located α} (h : (raised n k).Located e e') : e' = e :=
  eq_of_located (fun ht => Eq.symm ht) h

private theorem distances_extend {d d' e e' : Distances} (hd : (raised n k).distances d d')
    (he : (raised n k).distances e e') : (raised n k).distances (d.extend e) (d'.extend e') := by
  intro i i' hi
  rw [Distances.get?_extend, Distances.get?_extend, hd i i' hi, he i i' hi]

end Likeness

/-- What a source is like when it gets greater numbers. -/
structure Analysis.Raised (n k : Nat) (a a' : Analysis) : Prop where
  body : List.Forall₂ (Stmt.Like (.raised n k)) a.program.body a'.program.body
  distances : (Likeness.raised n k).distances a.distances a'.distances
  errors : a'.errors = a.errors
  nextId : a'.nextId = a.nextId + k

private theorem Analysis.raised_ofFile (f : SourceFile) {n i : Nat} (hi : n ≤ i) (k : Nat) :
    (ofFile f i).Raised n k (ofFile f (i + k)) := by
  have hparsed :=
    Parsed.like_ofTokens (Likeness.numbers_raised n k) (fun _ => rfl) (Lexed.ofText f.text).tokens
    ⟨hi, Eq.refl (i + k)⟩
  have hstart : Walk.Like (.raised n k) (Likeness.raised n k).distances .start .start :=
    ⟨rfl, rfl, rfl, fun j j' _ => by
      rw [Walk.start, Distances.get?_empty, Distances.get?_empty], .nil⟩
  have hwalk := Stmt.resolveAll_like (Likeness.records_raised n k) _ _ hparsed.body hstart
  have hproblems := Likeness.eq_of_forall₂ (fun _ _ => Likeness.eq_of_raised) hparsed.errors
  have herrors := Likeness.eq_of_forall₂ (fun _ _ => Likeness.eq_of_raised) hwalk.errors
  refine ⟨hparsed.body, hwalk.distances, ?_, hparsed.nextId.2⟩
  rw [ofFile, ofFile, ofTokens, ofTokens]
  simp only [hproblems, Resolved.ofStmts, herrors]

namespace Session

/-! ### Later runs -/

/-- How runs of sources end, each with its fuel, and what has been printed after each of them. There
is no more to tell when one of them does not end. -/
def transcript : List (Nat × SourceFile) → Session → List (Option (Outcome × Output))
  | [], _ => []
  | (fuel, f) :: later, s =>
    match s.run fuel f with
    | none => [none]
    | some (o, t) => some (o, t.machine.output) :: transcript later t

/-- Two sessions that differ in the numbers from `n` on, and in the number of runs. -/
structure Raised (n k : Nat) (s s' : Session) : Prop where
  machine : s.machine.Like (.raised n k) s'.machine
  le : n ≤ s.nextId
  nextId : s'.nextId = s.nextId + k

variable {n k : Nat} {s s' : Session}

/-- A source is run in the same way in both. -/
theorem Raised.run (h : Raised n k s s') (fuel : Nat) (f : SourceFile) :
    Option.Rel (fun p p' => p'.1 = p.1 ∧ Raised n k p.2 p'.2) (s.run fuel f) (s'.run fuel f) := by
  have ha := Analysis.raised_ofFile f h.le k
  have hle := Nat.le_trans h.le (Analysis.fit_ofFile f s.nextId).1.le
  unfold Session.run rejected ended
  dsimp only
  rw [h.nextId, ha.errors]
  split
  · exact .some ⟨rfl, h.machine, hle, ha.nextId⟩
  · have hentry : (s.machine.addDistances (Analysis.ofFile f s.nextId).distances).Like (.raised n k)
        (s'.machine.addDistances (Analysis.ofFile f (s.nextId + k)).distances) :=
      h.machine.withDistances (Likeness.distances_extend h.machine.distances ha.distances)
    have hrun := interpret_like fuel ha.body hentry
    generalize interpret fuel _ _ = r at hrun ⊢
    generalize interpret fuel _ _ = r' at hrun ⊢
    cases hrun with
    | done hm => exact .some ⟨rfl, hm, hle, ha.nextId⟩
    | fault he hm =>
      rw [Likeness.eq_of_raised he]
      exact .some ⟨rfl, hm, hle, ha.nextId⟩
    | outOfFuel => exact .none

private theorem Raised.transcript_eq (h : Raised n k s s') (later : List (Nat × SourceFile)) :
    transcript later s' = transcript later s := by
  induction later generalizing s s' with
  | nil => rfl
  | cons p later ih =>
    obtain ⟨fuel, f⟩ := p
    have hrun := h.run fuel f
    rw [transcript, transcript]
    generalize s.run fuel f = r at hrun ⊢
    generalize s'.run fuel f = r' at hrun ⊢
    cases hrun with
    | none => rfl
    | some hp =>
      simp only [hp.1, hp.2.machine.output, ih hp.2]

/-- In every session that can be reached, a source that is rejected leaves no trace: nothing is
run, the machine stays as it is, and all later runs end as they would have and print what they
would have printed. -/
theorem Reaches.rejected_leaves_no_trace {h : List (SourceFile × Analysis)} (hs : Reaches h s)
    {f : SourceFile} (hf : f.Rejected s.nextId) :
    let a := Analysis.ofFile f s.nextId
    let after : Session := { s with nextId := a.nextId, runs := s.runs + 1 }
    (∀ fuel, s.run fuel f = some (.staticErrors a.errors, after)) ∧ s.nextId ≤ a.nextId ∧
      ∀ later, transcript later after = transcript later s := by
  intro a after
  have hle : s.nextId ≤ a.nextId := (Analysis.fit_ofFile f s.nextId).1.le
  refine ⟨fun fuel => run_of_rejected hf, hle, fun later => ?_⟩
  obtain ⟨k, hk⟩ := Nat.exists_eq_add_of_le hle
  have hmachine : s.machine.Like (.raised s.nextId k) s.machine := by
    refine Machine.like_refl (fun _ => rfl) ?_ (hs.numbered.imp fun d hd v hv i hi =>
      .inl ⟨hd v hv i hi, rfl⟩)
    rintro i i' (⟨-, rfl⟩ | ⟨hi, rfl⟩)
    · rfl
    · -- Neither number has a distance yet.
      have hnone := hs.sound.history.unrecorded
      rw [hnone i hi, hnone (i + k) (Nat.le_add_right_of_le hi)]
  have hraised : Raised s.nextId k s { s with nextId := a.nextId, runs := s.runs + 1 } :=
    ⟨hmachine, Nat.le_refl _, hk⟩
  exact hraised.transcript_eq later

/-- A local variable that is read in its own initializer. -/
def selfReference : SourceFile := ⟨"self.lox", "{ var a = a; }"⟩

/-- The one expression of the source takes a number, and that is all. -/
theorem rejected_leaves_no_trace_selfReference : ∃ errors, ∃ t : Session,
    (∀ fuel, (initial fun _ => 0).run fuel selfReference = some (.staticErrors errors, t)) ∧
      t.machine = (initial fun _ => 0).machine ∧ t.nextId = 1 ∧
      ∀ later, transcript later t = transcript later (initial fun _ => 0) := by
  have herrors : (Analysis.ofFile selfReference 0).errors.hasErrors = true := by decide +kernel
  have hnext : (Analysis.ofFile selfReference 0).nextId = 1 := by decide +kernel
  obtain ⟨hrun, -, hlater⟩ :=
    Reaches.rejected_leaves_no_trace (s := initial fun _ => 0) (.initial _ _ _)
    ((Analysis.hasErrors_iff selfReference 0).mp herrors)
  exact ⟨_, _, hrun, rfl, hnext, hlater⟩

end Session

end Lox
