import Lox.Proofs.Session.Reach
/-!
# Where diagnostics point

A static diagnostic points into the source that it was found in. The fault of a run comes from a
piece of some source that was run before or is running, and it starts at a token of that source; but
it is reported against the source that is running. So it points to where it came from exactly if the
two sources have one name and the same line there.
-/

namespace Lox

/-- Whether a diagnostic names the source and shows its line on which the span starts. -/
structure Diagnostic.PointsInto (d : Diagnostic) (f : SourceFile) : Prop where
  file : d.file = f.name
  line : f.line? d.span.first.line = some d.sourceLine

/-- The piece of a program that an event belongs to. -/
def Event.sight? : Event → Option Sight
  | .node e => some (.expr e)
  | .print t => some (.print t)
  | .answer _ => none

/-- Whether the piece stands in the program of a source that was run. -/
def StandsIn (p : SourceFile × Analysis) (g : Sight) : Prop := ∃ v ∈ p.2.visits, v.sight = g

private theorem Event.exists_sight? {e : Event} {t : Span} (h : t ∈ e.spans) :
    ∃ g, e.sight? = some g ∧ t ∈ g.spans := by
  cases e with
  | node e => exact ⟨_, rfl, h⟩
  | print u => exact ⟨_, rfl, h⟩
  | answer c => cases h

/-- The piece that a sound moment belongs to stands in a program. -/
theorem Moment.Sound.exists_visit {V : Visit → Prop} {D : Distances} {m : Moment} (h : m.Sound V D)
    {g : Sight} (hg : m.event.sight? = some g) : ∃ v, V v ∧ v.sight = g := by
  obtain ⟨e, n⟩ := m
  have he := h.event
  cases e with
  | node e =>
    cases hg
    obtain ⟨c, hc, -⟩ := he
    exact ⟨_, hc, rfl⟩
  | print t =>
    cases hg
    obtain ⟨c, hc⟩ := he
    exact ⟨_, hc, rfl⟩
  | answer c => cases hg

/-! ### Static diagnostics -/

theorem Diagnostic.pointsInto_of_line? {d : Diagnostic} {f : SourceFile} (hf : d.file = f.name)
    (hd : d.sourceLine = (f.line? d.span.first.line).getD "") {l : String}
    (hl : f.line? d.span.first.line = some l) : d.PointsInto f := by
  refine ⟨hf, ?_⟩
  rw [hd, hl]
  rfl

/-- What is reported before a source runs points into the source: to a token or
to a lexical error. -/
theorem Analysis.pointsInto_of_mem_errors {f : SourceFile} {firstId : Nat} {d : Diagnostic}
    (h : d ∈ (ofFile f firstId).errors.kept) :
    d.PointsInto f ∧
      (f.StartsToken d.span.first ∨ ∃ e ∈ (Lexed.ofText f.text).errors, e.span = d.span) := by
  rcases mem_errors h with ⟨e, he, rfl⟩ | ⟨hf, hl, ht⟩
  · obtain ⟨l, hl⟩ := f.line?_of_inText ((Lexed.good_ofText f.text).errors e he)
    exact ⟨Diagnostic.pointsInto_of_line? rfl rfl hl, .inr ⟨e, he, rfl⟩⟩
  · obtain ⟨l, hl'⟩ := ht.line?
    exact ⟨Diagnostic.pointsInto_of_line? hf hl hl', .inl ht⟩

/-! ### Faults -/

/-- A diagnostic made for the source `f` points into a source that has the line if that source has
the name of `f` and `f` shows the same there. -/
theorem Diagnostic.pointsInto_ofError_iff {ε : Type} [Reportable ε] (e : Located ε) (f : SourceFile)
    {g : SourceFile} {l : String} (hl : g.line? e.span.first.line = some l) :
    (ofError f e).PointsInto g ↔ f.name = g.name ∧ (f.line? e.span.first.line).getD "" = l := by
  constructor
  · rintro ⟨hn, hg⟩
    exact ⟨hn, Option.some.inj (hg.symm.trans hl)⟩
  · rintro ⟨hn, hf⟩
    exact ⟨hn, hl.trans (congrArg some hf.symm)⟩

namespace Session

variable {h : List (SourceFile × Analysis)} {s : Session} {f : SourceFile} {fuel : Nat}

theorem fst_of_mem_accepted {p : SourceFile × Analysis} (hp : p ∈ s.accepted f) : p.1 = f := by
  unfold accepted at hp
  split at hp
  · cases hp
  · rw [List.mem_singleton.mp hp]

/-- The fault of a run comes from the piece of a program that the run got to last. -/
theorem Sound.exists_origin (hs : s.Sound h)
    (he : (Analysis.ofFile f s.nextId).errors.hasErrors = false) {e : Fault} {w : Watch}
    (hw : s.watch fuel f = .fault e w) :
    ∃ m g, (s.moments fuel f).head? = some m ∧ m.event.sight? = some g ∧ e.span ∈ g.spans ∧
      ∃ p ∈ s.accepted f ++ h, StandsIn p g := by
  have hsafe := hs.watch he fuel
  have hmoments : s.moments fuel f = w.moments := by
    rw [moments, he, hw]
    rfl
  obtain ⟨hk, m, ms, hm, ht⟩ : Watch.Keeps _ _ _ _ w ∧ w.Blames e := by
    unfold Safe at hsafe
    unfold Session.watch at hw
    rw [hw] at hsafe
    exact hsafe
  obtain ⟨g, hg, htg⟩ := Event.exists_sight? ht
  have hmem : m ∈ w.moments := by
    rw [hm]
    exact List.mem_cons_self
  obtain ⟨v, ⟨p, hp, hv⟩, hvg⟩ := (hk.sound.moments m hmem).exists_visit hg
  refine ⟨m, g, ?_, hg, htg, p, hp, v, hv, hvg⟩
  rw [hmoments, hm]
  rfl

/-- Pieces of the programs of a session are reported at tokens of the sources that they stand in. -/
theorem Sound.startsToken (hs : s.Sound h)
    (he : (Analysis.ofFile f s.nextId).errors.hasErrors = false) {p : SourceFile × Analysis}
    (hp : p ∈ s.accepted f ++ h) {g : Sight} (hg : StandsIn p g) {t : Span} (ht : t ∈ g.spans) :
    p.1.StartsToken t.first := by
  rw [accepted_eq he] at hp
  obtain ⟨v, hv, rfl⟩ := hg
  exact (hs.history.add he).tokens p hp v hv t ht

/-- What the outcome of any run of a session reports: static diagnostics point into the source; a
fault comes from the piece of a program that the run got to last, starts at a token of each
source that the piece stands in, and points into that source exactly if the running source has
its name and its line. -/
theorem Reaches.diagnostics_point (hs : Reaches h s) {o : Outcome} {t : Session}
    (hr : s.run fuel f = some (o, t)) :
    (∀ es, o = .staticErrors es → ∀ d ∈ es.kept, d.PointsInto f ∧
      (f.StartsToken d.span.first ∨ ∃ e ∈ (Lexed.ofText f.text).errors, e.span = d.span)) ∧
    ∀ d, o = .runtimeError d → ∃ m g, (s.moments fuel f).head? = some m ∧ m.event.sight? = some g ∧
      d.span ∈ g.spans ∧ (∃ p ∈ s.accepted f ++ h, StandsIn p g) ∧
      ∀ p ∈ s.accepted f ++ h, StandsIn p g → p.1.StartsToken d.span.first ∧
        ∃ l, p.1.line? d.span.first.line = some l ∧
          (d.PointsInto p.1 ↔ f.name = p.1.name ∧ (f.line? d.span.first.line).getD "" = l) := by
  rw [run_eq] at hr
  cases he : (Analysis.ofFile f s.nextId).errors.hasErrors with
  | true =>
    rw [he] at hr
    cases hr
    refine ⟨fun es h d hd => ?_, nofun⟩
    cases h
    exact Analysis.pointsInto_of_mem_errors hd
  | false =>
    rw [he] at hr
    cases hw : s.watch fuel f with
    | done a w =>
      rw [hw] at hr
      cases hr
      exact ⟨nofun, nofun⟩
    | cut w =>
      rw [hw] at hr
      cases hr
    | fault e w =>
      rw [hw] at hr
      cases hr
      refine ⟨nofun, fun d hd => ?_⟩
      cases hd
      obtain ⟨m, g, hm, hg, ht, hp⟩ := hs.sound.exists_origin he hw
      refine ⟨m, g, hm, hg, ht, hp, fun p hp hpg => ?_⟩
      have htoken := hs.sound.startsToken he hp hpg ht
      obtain ⟨l, hl⟩ := htoken.line?
      exact ⟨htoken, l, hl, Diagnostic.pointsInto_ofError_iff e f hl⟩

/-- Declares a function that faults, on its third line. -/
def declaringSource : SourceFile := ⟨"<repl:1>", "\n\nfun f() { return -nil; }"⟩

/-- Calls the function. -/
def callingSource : SourceFile := ⟨"<repl:2>", "f();"⟩

/-- The line of the fault that a run ended with. -/
def faultLine? : Option (Outcome × Session) → Option Nat
  | some (.runtimeError d, _) => some d.span.first.line
  | _ => none

private theorem eq_of_faultLine? {r : Option (Outcome × Session)} {n : Nat}
    (h : faultLine? r = some n) : ∃ d t, r = some (.runtimeError d, t) ∧ d.span.first.line = n := by
  unfold faultLine? at h
  split at h
  · rename_i d t
    exact ⟨d, t, rfl, Option.some.inj h⟩
  · cases h

/-- The fault of the second run comes from the source of the first and does not point into it. -/
theorem diagnostics_point_elsewhere :
    ∃ s t d, Reaches (Session.accepted declaringSource (Session.initial fun _ => 0)) s ∧
      s.run 60 callingSource = some (.runtimeError d, t) ∧
      ∃ a, (declaringSource, a) ∈ Session.accepted declaringSource (Session.initial fun _ => 0) ∧
        declaringSource.StartsToken d.span.first ∧ ¬ d.PointsInto declaringSource := by
  have hrun : ((Session.initial fun _ => 0).run 60 declaringSource).bind
      (fun r => faultLine? (r.2.run 60 callingSource)) = some 3 := by
    decide +kernel
  obtain ⟨⟨o, s⟩, hs, hfault⟩ := Option.bind_eq_some_iff.mp hrun
  obtain ⟨d, t, hd, hline⟩ := eq_of_faultLine? hfault
  have hreach : Reaches (Session.accepted declaringSource (Session.initial fun _ => 0) ++ []) s :=
    .run (.initial _ _ _) hs
  obtain ⟨m, g, -, -, -, ⟨p, hp, hg⟩, hall⟩ := (Reaches.diagnostics_point hreach hd).2 d rfl
  obtain ⟨htoken, l, hl, hiff⟩ := hall p hp hg
  rw [List.append_nil] at hp hreach
  rcases List.mem_append.mp hp with hp | hp
  · have hnone : callingSource.line? 3 = none := by decide
    rw [hline, fst_of_mem_accepted hp, hnone] at hl
    cases hl
  · obtain ⟨p, a⟩ := p
    obtain rfl : p = declaringSource := fst_of_mem_accepted hp
    have hname : callingSource.name ≠ declaringSource.name := by decide
    exact ⟨s, t, d, hreach, hd, a, hp, htoken, fun hd => hname (hiff.mp hd).1⟩

end Session

end Lox
