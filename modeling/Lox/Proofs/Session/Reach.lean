import Lox.Proofs.Running.Contract
import Lox.Proofs.Session.Static
/-!
# Sessions that can be reached

A session is reached by running sources one after another, however each run ends. What
the store holds then was declared by sources that were run, and the distances are those
of all their expressions.
-/

namespace Lox

namespace Session

/-- A source and its analysis, if it is run at all. -/
def accepted (f : SourceFile) (s : Session) : List (SourceFile × Analysis) :=
  if (Analysis.ofFile f s.nextId).errors.hasErrors then [] else [(f, Analysis.ofFile f s.nextId)]

/-- The sessions that runs of sources lead to, with the sources that were run, the last one first. A
source with errors is not run, but the session goes on. -/
inductive Reaches : List (SourceFile × Analysis) → Session → Prop where
  | initial (output : Output) (maxDepth : Nat) (clock : Nat → Float) :
    Reaches [] ⟨.initial output maxDepth clock, 0, 0⟩
  | run {h : List (SourceFile × Analysis)} {s t : Session} {fuel : Nat} {f : SourceFile}
      {o : Outcome} :
    Reaches h s → s.run fuel f = some (o, t) → Reaches (s.accepted f ++ h) t

/-- The watched run of a source that is run. -/
def watch (fuel : Nat) (f : SourceFile) (s : Session) : Ending Watch Unit :=
  let a := Analysis.ofFile f s.nextId
  watchAll fuel a.program.body ⟨s.machine.addDistances a.distances, []⟩

/-- The moments of the run of a source, the last one first. -/
def moments (fuel : Nat) (f : SourceFile) (s : Session) : List Moment :=
  if (Analysis.ofFile f s.nextId).errors.hasErrors then [] else (s.watch fuel f).state.moments

/-- A run ends as it does when it is watched. -/
theorem run_eq (fuel : Nat) (f : SourceFile) (s : Session) :
    s.run fuel f =
      if (Analysis.ofFile f s.nextId).errors.hasErrors then
        some (.staticErrors (Analysis.ofFile f s.nextId).errors,
          ⟨s.machine, (Analysis.ofFile f s.nextId).nextId, s.runs + 1⟩)
      else
        match s.watch fuel f with
        | .done _ w => some (.ok, ⟨w.machine, (Analysis.ofFile f s.nextId).nextId, s.runs + 1⟩)
        | .fault e w =>
          some (.runtimeError (.ofError f e),
            ⟨w.machine, (Analysis.ofFile f s.nextId).nextId, s.runs + 1⟩)
        | .cut _ => none := by
  have h := result_watchAll fuel (Analysis.ofFile f s.nextId).program.body
    ⟨s.machine.addDistances (Analysis.ofFile f s.nextId).distances, []⟩
  unfold run watch
  dsimp only at h ⊢
  rw [← h]
  split
  · rfl
  · cases watchAll fuel (Analysis.ofFile f s.nextId).program.body
      ⟨s.machine.addDistances (Analysis.ofFile f s.nextId).distances, []⟩ <;> rfl

end Session

/-! ### What holds of every session -/

/-- The stops of the walk in the programs of a history. -/
def Visited (h : List (SourceFile × Analysis)) (v : Visit) : Prop := ∃ p ∈ h, v ∈ p.2.visits

/-- What is known of the programs that were run, when `d` are the distances and `n`
is the next number. -/
structure HistorySound (h : List (SourceFile × Analysis)) (d : Distances) (n : Nat) : Prop where
  visits : ∀ v, Visited h v → v.Sound d
  fresh : ∀ v, Visited h v → ∀ i, v.id? = some i → i < n
  unrecorded : ∀ i, n ≤ i → d.get? i = none
  unique : ∀ u v, Visited h u → Visited h v → ∀ i, u.id? = some i → v.id? = some i → u = v
  tokens : ∀ p ∈ h, ∀ v ∈ p.2.visits, ∀ t ∈ v.sight.spans, p.1.StartsToken t.first

structure Session.Sound (h : List (SourceFile × Analysis)) (s : Session) : Prop where
  history : HistorySound h s.machine.distances s.nextId
  store : s.machine.store.Sound (Visited h)
  frame : s.machine.frame = globals

theorem Closure.Visited.imp {V V' : Visit → Prop} {s : Store} {c : Closure}
    {inner : List Scope → List Scope} (h : c.Visited V s inner) (hV : ∀ v, V v → V' v) :
    c.Visited V' s inner := by
  obtain ⟨w, kind, cs, hw, hc, hv⟩ := h
  exact ⟨w, kind, cs, hw, hc, fun v hm => hV v (hv v hm)⟩

theorem Store.Sound.imp {V V' : Visit → Prop} {s : Store} (h : s.Sound V) (hV : ∀ v, V v → V' v) :
    s.Sound V' where
  size := h.size
  root := h.root
  receiver := h.receiver
  parent := h.parent
  functions c hc := ⟨(h.functions c hc).visited.imp hV, (h.functions c hc).receiver⟩
  methods c hc x m hm := (h.methods c hc x m hm).imp hV

/-- Two stops at expressions with one number are the same stop. -/
theorem eq_of_id?_eq {l : List Visit} (hl : (l.filterMap Visit.id?).Nodup) {u v : Visit}
    (hu : u ∈ l) (hv : v ∈ l) {i : Nat} (hui : u.id? = some i) (hvi : v.id? = some i) : u = v := by
  induction l with
  | nil => cases hu
  | cons w l ih =>
    have htail : (l.filterMap Visit.id?).Nodup :=
      hl.sublist ((List.sublist_cons_self w l).filterMap _)
    have hhead : w.id? = some i → ∀ x ∈ l, x.id? ≠ some i := by
      intro hw x hx hxi
      rw [List.filterMap_cons_some hw, List.nodup_cons] at hl
      exact hl.1 (List.mem_filterMap.mpr ⟨x, hx, hxi⟩)
    rcases List.mem_cons.mp hu with rfl | hul
    · rcases List.mem_cons.mp hv with rfl | hvl
      · rfl
      · exact absurd hvi (hhead hui v hvl)
    · rcases List.mem_cons.mp hv with rfl | hvl
      · exact absurd hui (hhead hvi u hul)
      · exact ih htail hul hvl

namespace HistorySound

variable {h : List (SourceFile × Analysis)} {d : Distances} {n : Nat}

/-- Numbers can be left out. -/
theorem skip (hs : HistorySound h d n) {m : Nat} (hm : n ≤ m) : HistorySound h d m where
  visits := hs.visits
  fresh v hv i hi := Nat.lt_of_lt_of_le (hs.fresh v hv i hi) hm
  unrecorded i hi := hs.unrecorded i (Nat.le_trans hm hi)
  unique := hs.unique
  tokens := hs.tokens

/-- A source that is accepted adds its stops and its distances. -/
theorem add (hs : HistorySound h d n) {f : SourceFile}
    (he : (Analysis.ofFile f n).errors.hasErrors = false) :
    HistorySound ((f, Analysis.ofFile f n) :: h) (d.extend (Analysis.ofFile f n).distances)
      (Analysis.ofFile f n).nextId := by
  let a := Analysis.ofFile f n
  have hle : n ≤ a.nextId := (Analysis.fit_ofFile f n).1.le
  have hnew : ∀ v ∈ a.visits, ∀ i, v.id? = some i → n ≤ i ∧ i < a.nextId := fun v hv i hi =>
    Analysis.id_of_mem_visits hv hi
  have hnone : ∀ i, i < n ∨ a.nextId ≤ i → a.distances.get? i = none := fun _ =>
    Analysis.get?_distances_of_notMem
  have hcases : ∀ v, Visited ((f, a) :: h) v → v ∈ a.visits ∨ Visited h v := by
    rintro v ⟨p, hp, hv⟩
    rcases List.mem_cons.mp hp with rfl | hp
    · exact .inl hv
    · exact .inr ⟨p, hp, hv⟩
  constructor
  · intro v hv
    rcases hcases v hv with hv | hv
    · have hvs := Analysis.sound_visits he v hv
      refine ⟨hvs.toFaultless, hvs.inScope, fun i hi => ?_⟩
      rw [Distances.get?_extend, hvs.recorded i hi, hs.unrecorded i (hnew v hv i hi).1,
        Option.or_none]
    · have hvs := hs.visits v hv
      refine ⟨hvs.toFaultless, hvs.inScope, fun i hi => ?_⟩
      rw [Distances.get?_extend, hnone i (.inl (hs.fresh v hv i hi)), Option.none_or,
        hvs.recorded i hi]
  · intro v hv i hi
    rcases hcases v hv with hv | hv
    · exact (hnew v hv i hi).2
    · exact Nat.lt_of_lt_of_le (hs.fresh v hv i hi) hle
  · intro i hi
    rw [Distances.get?_extend, hnone i (.inr hi), hs.unrecorded i (Nat.le_trans hle hi)]
    rfl
  · intro u v hu hv i hui hvi
    rcases hcases u hu with hu | hu
    · rcases hcases v hv with hv | hv
      · refine eq_of_id?_eq ?_ hu hv hui hvi
        rw [Analysis.filterMap_id?_visits]
        exact (Analysis.fit_ofFile f n).1.nodup
      · exact absurd (hs.fresh v hv i hvi) (Nat.not_lt.mpr (hnew u hu i hui).1)
    · rcases hcases v hv with hv | hv
      · exact absurd (hs.fresh u hu i hui) (Nat.not_lt.mpr (hnew v hv i hvi).1)
      · exact hs.unique u v hu hv i hui hvi
  · intro p hp v hv t ht
    rcases List.mem_cons.mp hp with rfl | hp
    · exact Analysis.startsToken_of_mem_visits hv ht
    · exact hs.tokens p hp v hv t ht

end HistorySound

namespace Session

variable {h : List (SourceFile × Analysis)} {s t : Session} {f : SourceFile} {fuel : Nat}
  {o : Outcome}

theorem accepted_eq (he : (Analysis.ofFile f s.nextId).errors.hasErrors = false) :
    s.accepted f = [(f, Analysis.ofFile f s.nextId)] := by
  simp [accepted, he]

/-- The watched run of a source in a sound session is safe. -/
theorem Sound.watch (hs : s.Sound h) (he : (Analysis.ofFile f s.nextId).errors.hasErrors = false)
    (fuel : Nat) :
    Safe (Visited (s.accepted f ++ h))
      (s.machine.distances.extend (Analysis.ofFile f s.nextId).distances)
      (· ≠ globals) (watchAll fuel (Analysis.ofFile f s.nextId).program.body)
      ⟨s.machine.addDistances (Analysis.ofFile f s.nextId).distances, []⟩ fun _ _ => True := by
  rw [accepted_eq he]
  have hh := hs.history.add he
  refine safe_watchAll (fun v hv => (hh.visits v hv).toFaultless) fuel ?_ ⟨?_, rfl,
    fun m hm => by cases hm⟩
    hs.frame
  · exact fun v hv => ⟨_, List.mem_cons_self, hv⟩
  · exact hs.store.imp fun v ⟨p, hp, hv⟩ => ⟨p, List.mem_cons_of_mem _ hp, hv⟩

theorem sound_initial (output : Output) (maxDepth : Nat) (clock : Nat → Float) :
    Sound [] ⟨.initial output maxDepth clock, 0, 0⟩ := by
  have hbound : ∀ f x v, (Machine.initial output maxDepth clock).store.bound? f x = some v →
      x = "clock" := by
    intro f x v hv
    change (Store.addFrame _ _).2.bound? f x = _ at hv
    rw [Store.bound?_addFrame] at hv
    split at hv
    · rw [Table.find?_insert] at hv
      split at hv
      · rename_i hx
        exact hx.symm
      · cases hv
    · cases hv
  refine ⟨⟨?_, ?_, fun i _ => Distances.get?_empty i, ?_, fun p hp => by cases hp⟩, ?_, rfl⟩
  · rintro v ⟨p, hp, -⟩
    cases hp
  · rintro v ⟨p, hp, -⟩
    cases hp
  · rintro u v ⟨p, hp, -⟩
    cases hp
  · refine ⟨Nat.zero_lt_one, rfl, fun f v hv => ?_, fun f v hv => ?_, fun c hc => ?_,
      fun c hc => ?_⟩
    · exact absurd (hbound f _ v hv) (by decide)
    · exact absurd (hbound f _ v hv) (by decide)
    · simp [Machine.initial, Store.empty, Store.addNative, Store.addFrame] at hc
    · simp [Machine.initial, Store.empty, Store.addNative, Store.addFrame] at hc

/-- A run of a source leads from a sound session to a sound one. -/
theorem Sound.run (hs : s.Sound h) (hr : s.run fuel f = some (o, t)) :
    t.Sound (s.accepted f ++ h) := by
  rw [run_eq] at hr
  cases he : (Analysis.ofFile f s.nextId).errors.hasErrors with
  | true =>
    rw [he] at hr
    cases hr
    have ha : s.accepted f = [] := by simp [accepted, he]
    rw [ha]
    exact ⟨hs.history.skip (Analysis.fit_ofFile f s.nextId).1.le, hs.store, hs.frame⟩
  | false =>
    rw [he] at hr
    have hk := (hs.watch he fuel).keeps
    have hh := hs.history.add he
    have hafter : Sound (s.accepted f ++ h)
        ⟨(s.watch fuel f).state.machine, (Analysis.ofFile f s.nextId).nextId, s.runs + 1⟩ := by
      refine ⟨?_, hk.sound.store, hk.machine.frame.trans hs.frame⟩
      rw [accepted_eq he]
      exact hk.sound.distances ▸ hh
    cases hw : s.watch fuel f with
    | done a w =>
      rw [hw] at hafter hr
      cases hr
      exact hafter
    | fault e w =>
      rw [hw] at hafter hr
      cases hr
      exact hafter
    | cut w =>
      rw [hw] at hr
      cases hr

theorem Reaches.sound (hr : Reaches h s) : s.Sound h := by
  induction hr with
  | initial output maxDepth clock => exact sound_initial output maxDepth clock
  | run _ hr ih => exact ih.run hr

/-- All that is known at a moment of a run. -/
structure MomentSound (h : List (SourceFile × Analysis)) (m : Moment) : Prop where
  moment : m.Sound (Visited h) m.machine.distances
  visits : ∀ v, Visited h v → v.Sound m.machine.distances
  unique : ∀ u v, Visited h u → Visited h v → ∀ i, u.id? = some i → v.id? = some i → u = v

theorem Sound.moment (hs : s.Sound h) {m : Moment} (hm : m ∈ s.moments fuel f) :
    MomentSound (s.accepted f ++ h) m := by
  unfold moments at hm
  split at hm
  · cases hm
  · rename_i he
    have he' : (Analysis.ofFile f s.nextId).errors.hasErrors = false := by simpa using he
    have hsafe := hs.watch he' fuel
    have hh := hs.history.add he'
    have hms := hsafe.keeps.sound.moments m hm
    rw [accepted_eq he'] at hms ⊢
    refine ⟨?_, ?_, hh.unique⟩
    · rw [hms.distances]
      exact hms
    · rw [hms.distances]
      exact hh.visits

end Session

end Lox
