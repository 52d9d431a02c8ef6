import Lox.Proofs.Grammar.Soundness
import Lox.Proofs.Loops.Clauses
import Lox.Proofs.Loops.Grounded
import Lox.Proofs.Scoping.Statements
import Lox.Proofs.Session.Returns
/-!
# A loop and the statements that it stands for

The statements that a `for` loop is read as do what the loop does: from any state they print
the same, leave the same variables behind and end in the same way, or do not end either.
What is left behind is also the same for all code that comes after, though the statements
may have made more frames.
-/

namespace Lox

variable {α : Type} {k : Nat} {m m' n n' : Machine}

/-! ### What is the same -/

/-- All but the store is the same, what has been printed included, and so is what the first `k`
frames and the instances hold. -/
structure Machine.Resembles (k : Nat) (m m' : Machine) : Prop where
  rest : { m' with store := m.store } = m
  bindings : ∀ f < k, ∀ x, m'.store.bound? f x = m.store.bound? f x
  instances : m'.store.instances = m.store.instances
  texts : ∀ v, m'.store.text v = m.store.text v

/-- Two results that are reached in the same way, on machines for which `R` holds. -/
inductive Result.SameEnd (R : Machine → Machine → Prop) : Result α → Result α → Prop where
  | done {a m m'} : R m m' → SameEnd R (.done a m) (.done a m')
  | fault {e m m'} : R m m' → SameEnd R (.fault e m) (.fault e m')
  | outOfFuel : SameEnd R .outOfFuel .outOfFuel

/-- What is the same is the same after any further code in one of the first `k` frames. -/
structure Machine.GoesOn (k : Nat) (m m' : Machine) : Prop extends m.Resembles k m' where
  further : ∀ f < k, ∀ fuel code,
    (Run.inFrame f (Run.sequence (Stmt.exec fuel) code) m).SameEnd (Resembles k)
      (Run.inFrame f (Run.sequence (Stmt.exec fuel) code) m')

/-- Two runs end in the same way, given enough fuel, or both do not end whatever the fuel is. -/
structure Run.SameCourse (R : Machine → Machine → Prop) (x y : Nat → Run α) (m : Machine) :
    Prop where
  there : ∀ fuel, x fuel m ≠ .outOfFuel → ∃ least, ∀ fuel' ≥ least, (x fuel m).SameEnd R (y fuel' m)
  back : ∀ fuel', y fuel' m ≠ .outOfFuel → ∃ least, ∀ fuel ≥ least, (x fuel m).SameEnd R (y fuel' m)

theorem Result.SameEnd.outOfFuel_iff {R : Machine → Machine → Prop} {r r' : Result α}
    (h : r.SameEnd R r') : r = .outOfFuel ↔ r' = .outOfFuel := by
  cases h with
  | done | fault => exact ⟨nofun, nofun⟩
  | outOfFuel => exact ⟨fun _ => rfl, fun _ => rfl⟩

/-! ### From runs side by side -/

variable {D : Distances} {P Q : Pairing}

theorem Run.Abreast.sameEnd {x y : Run α} (h : Run.Abreast D P .outside x m y m' Same)
    {R : Machine → Machine → Prop} (hr : ∀ {Q n n'}, m.Onward D P .outside m' Q n n' → R n n') :
    (x m).SameEnd R (y m') := by
  unfold Run.Abreast at h
  cases hx : x m with
  | done a n =>
    rw [hx] at h
    obtain ⟨_, n', Q, hy, ho, rfl⟩ := h
    rw [hy]
    exact .done (hr ho)
  | fault e n =>
    rw [hx] at h
    obtain ⟨n', Q, hy, ho⟩ := h
    rw [hy]
    exact .fault (hr ho)
  | outOfFuel =>
    rw [hx] at h
    rw [h]
    exact .outOfFuel

namespace Machine.Onward

variable (h : m.Onward D P .outside m' Q n n') (hp : Pairing.same k ≤ P) (hf : m.frame = m'.frame)

include h hp hf

theorem resembles : n.Resembles k n' where
  rest := by
    have ha := h.abreast
    have hframe : n'.frame = n.frame := by rw [h.frame, h.frame', hf]
    obtain ⟨s, f, d, depth, max, out, clock, r⟩ := n
    obtain ⟨s', f', d', depth', max', out', clock', r'⟩ := n'
    simp only [Machine.mk.injEq, true_and]
    exact ⟨hframe, ha.distances'.trans ha.distances.symm, ha.depth, ha.maxDepth, ha.output,
      ha.clock, ha.readings⟩
  bindings _ hk x :=
    h.abreast.store.bound? (h.le _ _ _ (hp _ _ _ ⟨rfl, hk, rfl⟩)) Setting.outside_ne x
  instances := h.abreast.store.instances
  texts := h.abreast.store.text

private theorem goesOn : n.GoesOn k n' where
  toResembles := h.resembles hp hf
  further f hk fuel code := by
    have hq : Pairing.same k ≤ Q := le_trans hp h.le
    have hin : Machine.Abreast D Q .outside { n with frame := f } { n' with frame := f } :=
      h.abreast.withFrame (hq _ _ _ ⟨rfl, hk, rfl⟩)
    have hcode := Run.Abreast.sequence (Lox.abreast D fuel).2 (Stmt.liftedAll_outside D code) hin
    have hframe : n.frame = n'.frame := by rw [h.frame, h.frame', hf]
    exact (Run.Abreast.inFrame h.abreast hcode).sameEnd fun ho => ho.resembles hq hframe

end Machine.Onward

/-! ### Loops -/

/-- The statements that the walk comes to in a program. -/
def Analysis.statements (a : Analysis) : List (Walk × Stmt) :=
  Stmt.statementsAll .start a.program.body

/-- The numbers of the expressions in a statement. -/
def Stmt.numbers (s : Stmt) : List Nat := s.sights.filterMap Sight.id?

/-- What a program without errors has recorded for one of its statements. -/
theorem Analysis.sound_statement {f : SourceFile} {firstId : Nat}
    (hf : (ofFile f firstId).errors.hasErrors = false) {w : Walk} {s : Stmt}
    (hs : (w, s) ∈ (ofFile f firstId).statements)
    (hd : ∀ i ∈ s.numbers, D.get? i = (ofFile f firstId).distances.get? i) :
    ∀ v ∈ s.visits w, v.Sound D := by
  intro v hv
  have hsound := sound_visits hf v (Stmt.visits_subset_all _ _ hs hv)
  refine { hsound with recorded := fun i hi => ?_ }
  have hmem : v.sight ∈ s.sights := s.map_sight_visits w ▸ List.mem_map_of_mem hv
  rw [hd i (List.mem_filterMap.mpr ⟨_, hmem, hi⟩), hsound.recorded i hi]

/-- A loop and its copy, when the distances of both belong together. -/
theorem ForLoop.Lifted.sameCourse {l l' : ForLoop} (h : l.Lifted m.distances l') (hm : m.Grounded)
    (always : Site) :
    Run.SameCourse (Machine.GoesOn m.store.frames.size) (fun fuel => (l.desugared always).exec fuel)
      l'.run m := by
  have hblocks :
      ∀ fuel, (l.runBlocks fuel m).SameEnd (Machine.GoesOn m.store.frames.size) (l'.run fuel m) :=
    fun fuel => (h.run fuel hm.abreast_self).sameEnd fun ho => ho.goesOn (le_refl _) rfl
  constructor
  · intro fuel hx
    have hsame := hblocks fuel
    rw [l.desugared_below fuel m hx] at hsame
    refine ⟨fuel, fun fuel' hf => ?_⟩
    rwa [l'.run_below hf m fun hout => hx (hsame.outOfFuel_iff.mpr hout)]
  · intro fuel' hy
    have hsame := hblocks fuel'
    have hends : l.runBlocks fuel' m ≠ .outOfFuel := fun hout => hy (hsame.outOfFuel_iff.mp hout)
    have hmore := l.below_desugared always fuel' m hends
    refine ⟨fuel' + 4, fun fuel hf => ?_⟩
    rw [(l.desugared always).exec_below hf m (hmore ▸ hends), hmore]
    exact hsame

/-- In a program without errors, and from any state, the statements that a loop stands for do what
the loop does. The loop is a copy, whose expressions have numbers of their own, so that it can be
resolved as a loop; the state has the distances of both. It can have any limit of output, so this is
about what endless loops print as well. -/
theorem ForLoop.desugared_runs_alike {f : SourceFile} {firstId : Nat}
    (hf : (Analysis.ofFile f firstId).errors.hasErrors = false) {l l' : ForLoop} {always : Site}
    {w : Walk} (hl : (w, l.desugared always) ∈ (Analysis.ofFile f firstId).statements)
    (hbody : l.body.declares? = none) (hcopy : l.Copy l') (hnew : l'.numbers.Nodup) {m : Machine}
    (hm : m.Grounded)
    (hd : ∀ i ∈ (l.desugared always).numbers,
      m.distances.get? i = (Analysis.ofFile f firstId).distances.get? i)
    (hd' : ∀ i ∈ l'.numbers,
      m.distances.get? i = (l'.resolve { w with distances := .empty }).distances.get? i) :
    Run.SameCourse (Machine.GoesOn m.store.frames.size) (fun fuel => (l.desugared always).exec fuel)
      l'.run m := by
  have hcontext : w.context = { w with distances := .empty }.context := rfl
  have hrecorded := l'.recorded_visits hnew (w := { w with distances := .empty }) rfl hd'
  exact (hcopy.lifted hcontext hbody (Analysis.sound_statement hf hl hd)
    hrecorded).sameCourse hm always

/-- What is read where a loop is written are the statements that it stands for. Its body
is no declaration. -/
theorem Reader.Reads.exists_loop {n : Nat} {c d : Cursor} {s : Stmt}
    (h : (Reader.forStmt n).Reads c s d) :
    ∃ l : ForLoop, ∃ always, s = l.desugared always ∧ l.body.declares? = none := by
  cases n with
  | zero => exact absurd h not_reads_fail
  | succ n =>
    rw [forStmt_eq] at h
    obtain ⟨_, _, -, h⟩ := reads_bind.mp h
    obtain ⟨_, _, -, h⟩ := reads_bind.mp h
    obtain ⟨initial, _, -, h⟩ := reads_bind.mp h
    obtain ⟨condition, _, -, h⟩ := reads_bind.mp h
    obtain ⟨_, _, -, h⟩ := reads_bind.mp h
    obtain ⟨increment, _, -, h⟩ := reads_bind.mp h
    obtain ⟨_, e, -, h⟩ := reads_bind.mp h
    obtain ⟨body, _, hbody, h⟩ := reads_bind.mp h
    obtain ⟨-, -, span, always, rfl⟩ := h.forEnd
    refine ⟨⟨span, initial, condition, increment, body⟩, always, rfl, ?_⟩
    have hok : e.Ok (fun _ => True) fun _ => True :=
      ⟨fun _ _ => ⟨trivial, fun _ _ => trivial⟩, trivial, fun _ _ => trivial⟩
    have hruns := (statementRuns (fun _ => True) (fun _ => True) n).statement e hok
    exact (hruns.2.2 body (by rw [hbody.eq])).branch

namespace Session

variable {h : List (SourceFile × Analysis)} {s : Session} {f : SourceFile} {w : Walk} {st : Stmt}
  {l l' : ForLoop}

/-- The session, with a source about to run, as it is when a loop is resolved where the walk is at
`w` and is run in the frame `g`. -/
def resolved (s : Session) (f : SourceFile) (w : Walk) (l : ForLoop) (g : FrameId) : Machine :=
  { (s.entry f).addDistances (l.resolve { w with distances := .empty }).distances with frame := g }

theorem get?_resolved (s : Session) (f : SourceFile) (w : Walk) (l : ForLoop) (g : FrameId)
    (i : Nat) :
    (s.resolved f w l g).distances.get? i =
      ((l.resolve { w with distances := .empty }).distances.get? i).or
        ((s.entry f).distances.get? i) :=
  Distances.get?_extend _ _ _

/-- The expressions of an accepted source have the distances of its analysis, if the loop
has other numbers. -/
theorem get?_resolved_statement (hst : (w, st) ∈ (Analysis.ofFile f s.nextId).statements)
    (hs : Reaches h s) (hnew : ∀ i ∈ l'.numbers, (Analysis.ofFile f s.nextId).nextId ≤ i)
    (g : FrameId) {i : Nat} (hi : i ∈ st.numbers) :
    (s.resolved f w l' g).distances.get? i = (Analysis.ofFile f s.nextId).distances.get? i := by
  have hrange : s.nextId ≤ i ∧ i < (Analysis.ofFile f s.nextId).nextId := by
    rw [Stmt.numbers, ← st.map_sight_visits w, List.filterMap_map] at hi
    obtain ⟨v, hv, hid⟩ := List.mem_filterMap.mp hi
    exact Analysis.id_of_mem_visits (Stmt.visits_subset_all _ _ hst hv) hid
  have hmiss : i ∉ l'.numbers := fun hmem => absurd (hnew i hmem) (Nat.not_le_of_lt hrange.2)
  rw [get?_resolved, l'.get?_resolve_of_notMem rfl hmiss, Option.none_or, get?_entry,
    hs.sound.history.unrecorded i hrange.1, Option.or_none]

/-- The expressions of the loop have the distances that it is resolved with. -/
theorem get?_resolved_loop (hs : Reaches h s)
    (hnew : ∀ i ∈ l'.numbers, (Analysis.ofFile f s.nextId).nextId ≤ i) (g : FrameId) {i : Nat}
    (hi : i ∈ l'.numbers) :
    (s.resolved f w l' g).distances.get? i =
      (l'.resolve { w with distances := .empty }).distances.get? i := by
  have hle := (Analysis.fit_ofFile f s.nextId).1.le
  rw [get?_resolved, get?_entry, Analysis.get?_distances_of_notMem (.inr (hnew i hi)),
    hs.sound.history.unrecorded i (Nat.le_trans hle (hnew i hi)), Option.or_none, Option.or_none]

private theorem grounded_resolved (hs : Reaches h s) (f : SourceFile) (w : Walk) (l : ForLoop)
    {g : FrameId} (hg : g < s.machine.store.frames.size) : (s.resolved f w l g).Grounded := by
  have hentry :
      ((s.entry f).addDistances (l.resolve { w with distances := .empty }).distances).Grounded :=
    (hs.reached.grounded.addDistances _).addDistances _
  exact hentry.withFrame hg

/-- What a `for` is read as in an accepted source are the statements of a loop. In every session
that can be reached, and in any of its frames, they do what the loop does when it is resolved as a
loop, in a copy whose expressions have numbers that no source has used. -/
theorem Reaches.for_runs_alike (hs : Reaches h s)
    (hf : (Analysis.ofFile f s.nextId).errors.hasErrors = false) {n : Nat} {c d : Cursor}
    (hread : (Reader.forStmt n).Reads c st d)
    (hst : (w, st) ∈ (Analysis.ofFile f s.nextId).statements) :
    ∃ l : ForLoop, ∃ always, st = l.desugared always ∧ ∀ l', l.Copy l' → l'.numbers.Nodup →
      (∀ i ∈ l'.numbers, (Analysis.ofFile f s.nextId).nextId ≤ i) →
      ∀ g < s.machine.store.frames.size,
        Run.SameCourse (Machine.GoesOn s.machine.store.frames.size)
          (fun fuel => st.exec fuel) l'.run (s.resolved f w l' g) := by
  obtain ⟨l, always, rfl, hbody⟩ := hread.exists_loop
  refine ⟨l, always, rfl, fun l' hcopy hnodup hnew g hg => ?_⟩
  exact ForLoop.desugared_runs_alike hf hst hbody hcopy hnodup (grounded_resolved hs f w l' hg)
    (fun i => get?_resolved_statement hst hs hnew g) (fun i => get?_resolved_loop hs hnew g)

end Session

/-- A loop with all its clauses. -/
def countingSource : SourceFile := ⟨"loop.lox", "for (var i = true; i; i = false) print i;"⟩

/-- What is read from the source, with numbers that are greater by `n`. -/
def countingLoop (n : Nat) : ForLoop :=
  let span (i j : Nat) : Span := ⟨⟨1, i⟩, ⟨1, j⟩⟩
  let x (i : Nat) : Ident := ⟨"i", span i i⟩
  { span := span 1 41
    initial := some (.var (span 6 18) (x 10) (some (.literal ⟨n, span 14 17⟩ (.bool true))))
    condition := some (.var ⟨n + 1, span 20 20⟩ (x 20))
    increment :=
      some (.assign ⟨n + 4, span 23 31⟩ (x 23) (.literal ⟨n + 3, span 27 31⟩ (.bool false)))
    body := .print (span 34 41) (.var ⟨n + 5, span 40 40⟩ (x 40)) }

example : ∃ d, (Reader.forStmt 20).Reads
    (Cursor.ofTokens (Lexed.ofText countingSource.text).tokens 0)
    ((countingLoop 0).desugared default) d :=
  ⟨_, rfl, rfl⟩

private theorem copy_countingLoop (n k : Nat) : (countingLoop n).Copy (countingLoop k) where
  span := rfl
  initial := .some (.var rfl ⟨rfl, rfl⟩ (.some (.literal ⟨trivial, rfl⟩)))
  condition := .some (.var ⟨trivial, rfl⟩ ⟨rfl, rfl⟩)
  increment := .some (.assign ⟨trivial, rfl⟩ ⟨rfl, rfl⟩ (.literal ⟨trivial, rfl⟩))
  body := .print rfl (.var ⟨trivial, rfl⟩ ⟨rfl, rfl⟩)

/-- The variable of the loop is a scope further out for the increment of the statements than for
that of the copy. -/
theorem ForLoop.desugared_runs_alike_counting :
    let a := Analysis.ofFile countingSource 0
    let direct := (countingLoop 100).resolve .start
    let m :=
      ((Machine.initial .unlimited 9 fun _ => 0).addDistances a.distances).addDistances
        direct.distances
    a.program.body = [(countingLoop 0).desugared default] ∧ a.distances.get? 4 = some 1 ∧
      direct.distances.get? 104 = some 0 ∧
      Run.SameCourse (Machine.GoesOn m.store.frames.size)
        (fun fuel => ((countingLoop 0).desugared default).exec fuel)
        (countingLoop 100).run m := by
  intro a direct m
  have hread : a.program.body = [(countingLoop 0).desugared default] := rfl
  refine ⟨hread, by decide +kernel, by decide +kernel, ?_⟩
  have hmem : (Walk.start, (countingLoop 0).desugared default) ∈ a.statements := by
    rw [Analysis.statements, hread]
    exact List.mem_append_left _ List.mem_cons_self
  have hok : a.errors.hasErrors = false := by decide +kernel
  have hgrounded : m.Grounded := ((Machine.Grounded.initial _ _ _).addDistances _).addDistances _
  exact desugared_runs_alike hok hmem rfl (copy_countingLoop 0 100) (by decide +kernel) hgrounded
    (by decide +kernel) (by decide +kernel)

end Lox
