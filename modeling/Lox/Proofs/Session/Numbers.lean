import Lox.Proofs.Running.Alike
import Lox.Proofs.Running.Code
import Lox.Proofs.Session.Trails
/-!
# Sources in a session

A source is accepted if none of its three stages reports an error. Its expressions get the next
numbers, so all numbers in the store of a session are below the next one.
-/

namespace Lox

/-- Lexing, parsing or resolving the source, numbered from `firstId`, reports an error. -/
def SourceFile.Rejected (f : SourceFile) (firstId : Nat) : Prop :=
  let lexed := Lexed.ofText f.text
  let parsed := Parsed.ofTokens lexed.tokens firstId
  lexed.errors ≠ [] ∨ parsed.errors ≠ [] ∨ (Resolved.ofStmts parsed.program.body).errors ≠ []

private theorem Diagnostics.total_extend_ofErrors {ε : Type} [Reportable ε] (s : Diagnostics)
    (f : SourceFile) (es : List (Located ε)) :
    (s.extend (ofErrors f es)).total = 0 ↔ s.total = 0 ∧ es = [] := by
  have htotal : (ofErrors f es).total = es.length := by
    rw [ofErrors, ofList, total_foldl_push, List.length_map]
    exact Nat.zero_add _
  have hextend : (s.extend (ofErrors f es)).total =
      s.total + (ofErrors f es).kept.length + (es.length - (ofErrors f es).kept.length) := by
    rw [extend, total_foldl_push, htotal]
  rw [hextend, ← List.length_eq_zero_iff]
  constructor
  · intro h
    omega
  · rintro ⟨hs, hes⟩
    obtain rfl := List.eq_nil_of_length_eq_zero hes
    exact hs

/-- The sink of a source is empty if and only if no stage reports an error. -/
theorem Analysis.hasErrors_iff (f : SourceFile) (i : Nat) :
    (ofFile f i).errors.hasErrors = true ↔ f.Rejected i := by
  have hzero : (ofFile f i).errors.total = 0 ↔ ¬ f.Rejected i := by
    simp only [ofFile, ofTokens, SourceFile.Rejected, Diagnostics.total_foldl_push, List.length_map,
      Nat.add_eq_zero_iff, Diagnostics.total_extend_ofErrors, List.length_eq_zero_iff, not_or,
      not_not]
    simp only [Diagnostics.empty, true_and, and_assoc]
  rw [Diagnostics.hasErrors, decide_eq_true_iff, Nat.pos_iff_ne_zero, Ne, hzero, not_not]

/-- What an accepted source is like. -/
structure SourceFile.Accepted (f : SourceFile) (firstId : Nat) : Prop where
  lexed : (Lexed.ofText f.text).errors = []
  parsed : (Parsed.ofTokens (Lexed.ofText f.text).tokens firstId).errors = []
  resolved : (Resolved.ofStmts (Analysis.ofFile f firstId).program.body).errors = []

theorem Analysis.accepted_iff (f : SourceFile) (i : Nat) :
    (ofFile f i).errors.hasErrors = false ↔ f.Accepted i := by
  rw [← Bool.not_eq_true, hasErrors_iff, SourceFile.Rejected, not_or, not_or, not_not, not_not,
    not_not]
  exact ⟨fun ⟨hl, hp, hr⟩ => ⟨hl, hp, hr⟩, fun ⟨hl, hp, hr⟩ => ⟨hl, hp, hr⟩⟩

theorem SourceFile.rejected_or_accepted (f : SourceFile) (i : Nat) :
    f.Rejected i ∨ f.Accepted i := by
  cases he : (Analysis.ofFile f i).errors.hasErrors with
  | true => exact .inl ((Analysis.hasErrors_iff f i).mp he)
  | false => exact .inr ((Analysis.accepted_iff f i).mp he)

/-- In a program that is accepted nothing returns outside of functions. -/
theorem Analysis.straightAll {f : SourceFile} {i : Nat} (h : f.Accepted i) :
    Stmt.StraightAll (ofFile f i).program.body :=
  Stmt.straightAll (w := .start) rfl _ fun v hv =>
    (sound_visits ((accepted_iff f i).mpr h) v hv).toFaultless

namespace Session

variable {h : List (SourceFile × Analysis)} {s t : Session} {f : SourceFile} {fuel fuel' : Nat}
  {o : Outcome}

/-! ### Runs -/

/-- A source that is rejected is not run, and the machine stays as it is. -/
theorem run_of_rejected (hf : f.Rejected s.nextId) :
    s.run fuel f = some (.staticErrors (Analysis.ofFile f s.nextId).errors,
      { s with nextId := (Analysis.ofFile f s.nextId).nextId, runs := s.runs + 1 }) := by
  rw [run_eq, if_pos ((Analysis.hasErrors_iff f s.nextId).mpr hf)]

theorem run_of_accepted (hf : f.Accepted s.nextId) (fuel : Nat) :
    s.run fuel f = s.ended f (Analysis.ofFile f s.nextId)
      (interpret fuel (Analysis.ofFile f s.nextId).program.body (s.entry f)) := by
  unfold run
  dsimp only
  rw [(Analysis.accepted_iff f s.nextId).mpr hf, if_neg (by decide)]
  rfl

/-- A source that is run to an end is run to the same end with more fuel. -/
theorem run_mono (hr : s.run fuel f = some (o, t)) (hn : fuel ≤ fuel') :
    s.run fuel' f = some (o, t) := by
  obtain hf | hf := f.rejected_or_accepted s.nextId
  · rwa [run_of_rejected hf, ← run_of_rejected hf] at hr
  · rw [run_of_accepted hf] at hr ⊢
    have hends : interpret fuel (Analysis.ofFile f s.nextId).program.body (s.entry f) ≠
        .outOfFuel := by
      intro hout
      rw [hout] at hr
      cases hr
    rw [interpret_mono hn _ _ hends]
    exact hr

/-- What has been printed before a run comes before what it prints. -/
theorem begins_of_run (hr : s.run fuel f = some (o, t)) :
    s.machine.output.Begins t.machine.output := by
  obtain hf | hf := f.rejected_or_accepted s.nextId
  · rw [run_of_rejected hf] at hr
    cases hr
    exact .refl _
  · have hC := Condition.invariant_trivial (s.entry f).distances
    have hfollows :=
      follows (s := s) (f := f) hC rfl trivial trivial (fun _ _ => trivial) (fun _ _ => trivial)
      fuel
    rw [machine_of_run ((Analysis.accepted_iff f s.nextId).mpr hf) hr]
    exact hfollows.moves.output

/-- A run that ends well is that of an accepted source, whose program ends normally. -/
theorem accepted_of_run_ok (hr : s.run fuel f = some (.ok, t)) :
    f.Accepted s.nextId ∧
    ∃ m, interpret fuel (Analysis.ofFile f s.nextId).program.body (s.entry f) = .done () m ∧
      t = ⟨m, (Analysis.ofFile f s.nextId).nextId, s.runs + 1⟩ := by
  obtain hf | hf := f.rejected_or_accepted s.nextId
  · rw [run_of_rejected hf] at hr
    cases hr
  · rw [run_of_accepted hf] at hr
    cases hi : interpret fuel (Analysis.ofFile f s.nextId).program.body (s.entry f) with
    | done _ m =>
      rw [hi] at hr
      cases hr
      exact ⟨hf, m, rfl, rfl⟩
    | fault | outOfFuel =>
      rw [hi] at hr
      cases hr

/-! ### Numbers -/

/-- What is asked of the code in the store of a session. -/
def Numbered (s : Session) : Prop :=
  s.machine.store.Declares fun d => ∀ v ∈ d.sights, v.Below s.nextId

/-- The numbers of a source are below the next one after it. -/
theorem below_of_mem_sightsAll (f : SourceFile) (i : Nat) :
    ∀ v ∈ Stmt.sightsAll (Analysis.ofFile f i).program.body,
    v.Below (Analysis.ofFile f i).nextId := fun v hv j hj =>
  ((Analysis.fit_ofFile f i).1.range j (List.mem_filterMap.mpr ⟨v, hv, hj⟩)).2

theorem Numbered.mono (hs : s.Numbered) (hn : s.nextId ≤ t.nextId) (hm : t.machine = s.machine) :
    t.Numbered := by
  rw [Numbered, hm]
  exact hs.imp fun d hd v hv => (hd v hv).mono hn

theorem Numbered.run (hs : s.Numbered) (hr : s.run fuel f = some (o, t)) : t.Numbered := by
  have hle := (Analysis.fit_ofFile f s.nextId).1.le
  obtain hf | hf := f.rejected_or_accepted s.nextId
  · rw [run_of_rejected hf] at hr
    cases hr
    exact hs.mono hle rfl
  · have hgood : s.machine.store.Declares fun d =>
        ∀ v ∈ d.sights, v.Below (Analysis.ofFile f s.nextId).nextId :=
      hs.imp fun d hd v hv => (hd v hv).mono hle
    have hbody := Stmt.forall_spotsAll.mpr (below_of_mem_sightsAll f s.nextId)
    have hC :=
      Condition.invariant_code (Sight.Below (Analysis.ofFile f s.nextId).nextId)
        (s.entry f).distances
    have hfollows := Session.follows hC rfl hgood trivial hbody (fun _ _ => trivial) fuel
    rw [machine_of_run ((Analysis.accepted_iff f s.nextId).mpr hf) hr]
    exact hfollows.moves.ready.good

theorem Reaches.numbered (hs : Reaches h s) : s.Numbered := by
  induction hs with
  | initial output maxDepth clock =>
    refine ⟨fun c hc => ?_, fun c hc => ?_⟩ <;>
      simp [Machine.initial, Store.empty, Store.addNative, Store.addFrame] at hc
  | run _ hr ih => exact ih.run hr

end Session

end Lox
