import Lox.Proofs.Likeness.Texts
import Lox.Proofs.Likeness.Walking
import Lox.Proofs.Session.Numbers
/-!
# Programs in parts

A program may be cut at the end of a line into two sources that are run one after the other. If each
of them is accepted, and the first one ends well, then the whole is accepted too, prints what the
two print, and ends as the second one does. Nothing of a run goes on into the next but what stands
in the machine, and the whole gives its expressions the same numbers.
-/

namespace Lox

/-! ### Both parts together -/

private theorem Stmt.resolveAll_append (w : Walk) (as bs : List Stmt) :
    Stmt.resolveAll w (as ++ bs) = Stmt.resolveAll (Stmt.resolveAll w as) bs := by
  induction as generalizing w with
  | nil => rfl
  | cons a as ih => exact ih _

/-- The distances `d'` are those in `d` and also those in `e`. -/
def Distances.Adds (e d d' : Distances) : Prop := ∀ i, d'.get? i = (d.get? i).or (e.get? i)

private theorem Distances.records_adds (e : Distances) : Likeness.moved.Records e.Adds := by
  intro d d' i i' n hd hi j
  obtain rfl : i = i' := hi
  rw [get?_insert, get?_insert, hd j]
  split <;> rfl

/-- The analysis of the whole, made of those of the two parts. -/
structure Analysis.Joins (a b whole : Analysis) : Prop where
  body : ∃ ss, whole.program.body = a.program.body ++ ss ∧
    List.Forall₂ (Stmt.Like .moved) b.program.body ss
  distances : a.distances.Adds b.distances whole.distances

/-- The walk goes on as it would start, with the distances that are there. -/
theorem Analysis.walk_like {f : SourceFile} {i : Nat} (h : f.Accepted i) :
    Walk.Like .moved (ofFile f i).distances.Adds .start
      (Stmt.resolveAll .start (ofFile f i).program.body) := by
  have hvisits := sound_visits ((accepted_iff f i).mpr h)
  have hcontext := Stmt.context_resolveAll .start (ofFile f i).program.body
    fun v hv => (hvisits v hv).toFaultless.proper
  rw [show Walk.start.context.scopes = [] from rfl, definedAll_nil] at hcontext
  refine ⟨congrArg Context.scopes hcontext, congrArg Context.function hcontext,
    congrArg Context.classKind hcontext, fun j => ?_, ?_⟩
  · rw [Walk.start, Distances.get?_empty, Option.none_or]
    rfl
  · rw [show (Stmt.resolveAll .start (ofFile f i).program.body).errors.toList = [] from h.resolved]
    exact .nil

private theorem Analysis.joins_ofFile {f a b : SourceFile} (hf : f.text = a.text ++ "\n" ++ b.text)
    {i : Nat} (ha : a.Accepted i) (hb : b.Accepted (ofFile a i).nextId) :
    f.Accepted i ∧ (ofFile a i).Joins (ofFile b (ofFile a i).nextId) (ofFile f i) := by
  obtain ⟨herrors, -⟩ := Lexed.ofText_break ha.lexed hb.lexed
  obtain ⟨hparsed, -, ss, hbody, hlike⟩ :=
    Parsed.ofText_break ha.lexed hb.lexed rfl rfl ha.parsed hb.parsed
  rw [← hf] at herrors hparsed hbody
  change (ofFile f i).program.body = (ofFile a i).program.body ++ ss at hbody
  have hwalk :=
    Stmt.resolveAll_like (Distances.records_adds (ofFile a i).distances) _ ss hlike (walk_like ha)
  rw [← Stmt.resolveAll_append, ← hbody] at hwalk
  have hresolved : List.Forall₂ Likeness.moved.Located
      (Resolved.ofStmts (ofFile b (ofFile a i).nextId).program.body).errors
      (Resolved.ofStmts (ofFile f i).program.body).errors := hwalk.errors
  rw [hb.resolved] at hresolved
  exact ⟨⟨herrors, hparsed, List.forall₂_nil_left_iff.mp hresolved⟩, ⟨ss, hbody, hlike⟩,
    hwalk.distances⟩

/-- The same end, wherever it is reached: a fault has the same code and the same message. -/
inductive Outcome.Agrees : Outcome → Outcome → Prop where
  | ok : Agrees .ok .ok
  | runtimeError {d d' : Diagnostic} : d'.code = d.code → d'.message = d.message →
    Agrees (.runtimeError d) (.runtimeError d')

namespace Session

variable {h : List (SourceFile × Analysis)} {s s₁ : Session} {f a b : SourceFile} {fuel : Nat}

/-! ### The run of the whole -/

/-- The first part runs in the whole as it does alone, and leaves the machine as the second part
finds it, but for distances that are there already. -/
theorem first_of_whole (hs : s.Numbered) (hr : s.run fuel a = some (.ok, s₁))
    (hj : (Analysis.ofFile a s.nextId).Joins (Analysis.ofFile b s₁.nextId)
      (Analysis.ofFile f s.nextId)) :
    ∃ m, interpret fuel (Analysis.ofFile a s.nextId).program.body (s.entry f) = .done () m ∧
      (s₁.entry b).Like .moved m := by
  obtain ⟨-, m₁, hm₁, hs₁⟩ := accepted_of_run_ok hr
  have hmachine : s₁.machine = m₁ := congrArg Session.machine hs₁
  have hnext : s₁.nextId = (Analysis.ofFile a s.nextId).nextId := congrArg Session.nextId hs₁
  have hle : s.nextId ≤ s₁.nextId := hnext ▸ (Analysis.fit_ofFile a s.nextId).1.le
  have hcode : s.machine.store.Declares fun d => ∀ v ∈ d.sights, v.Below s₁.nextId :=
    hs.imp fun d hd v hv => (hd v hv).mono hle
  have hbody : ∀ v ∈ Stmt.sightsAll (Analysis.ofFile a s.nextId).program.body, v.Below s₁.nextId :=
    hnext ▸ below_of_mem_sightsAll a s.nextId
  -- The second part's numbers come after all that the first part or an older closure has.
  have hsame : ∀ i < s₁.nextId, (s.entry f).distances.get? i = (s.entry a).distances.get? i := by
    intro i hi
    have hnone : (Analysis.ofFile b s₁.nextId).distances.get? i = none :=
      Analysis.get?_distances_of_notMem (.inl hi)
    rw [get?_entry, get?_entry, hj.distances, hnone, Option.none_or]
  obtain ⟨hd, hfirst⟩ := interpret_addDistances hcode hbody hsame hm₁
  refine ⟨_, hfirst, ?_⟩
  -- Only the distances differ from here on: the whole has those of both parts from its start.
  have hself : m₁.Like .moved m₁ := Machine.like_refl (fun _ => trivial) (fun i _ hi => hi ▸ rfl)
    ⟨fun _ _ _ _ _ _ => rfl, fun _ _ _ _ _ _ _ _ => rfl⟩
  rw [← hmachine] at hself hd ⊢
  refine hself.withDistances fun i _ hi => ?_
  obtain rfl := hi
  have hd : s₁.machine.distances = (s.entry a).distances := hd
  change (s.entry f).distances.get? i = (s₁.entry b).distances.get? i
  rw [get?_entry, get?_entry, hd, get?_entry, hj.distances, Option.or_assoc]

/-- With fuel that is enough for the first part, the whole ends as the second part does. -/
theorem run_whole (hs : s.Numbered) (hf : f.text = a.text ++ "\n" ++ b.text)
    (hr : s.run fuel a = some (.ok, s₁)) (hb : b.Accepted s₁.nextId) :
    f.Accepted s.nextId ∧
    Option.Rel (fun p q => p.1.Agrees q.1 ∧ q.2.machine.output = p.2.machine.output)
      (s₁.run fuel b) (s.run fuel f) := by
  obtain ⟨ha, m₁, -, hs₁⟩ := accepted_of_run_ok hr
  have hnext : s₁.nextId = (Analysis.ofFile a s.nextId).nextId := congrArg Session.nextId hs₁
  have hjoins := Analysis.joins_ofFile hf ha (hnext ▸ hb)
  rw [← hnext] at hjoins
  obtain ⟨hwhole, hj⟩ := hjoins
  obtain ⟨m, hfirst, hlike⟩ := first_of_whole hs hr hj
  obtain ⟨ss, hbody, hss⟩ := hj.body
  have hstraight := Analysis.straightAll ha
  have hsecond := interpret_like fuel hss hlike
  refine ⟨hwhole, ?_⟩
  rw [run_of_accepted hb, run_of_accepted hwhole, hbody, interpret_append fuel hstraight, hfirst]
  dsimp only
  generalize interpret fuel _ (s₁.entry b) = r at hsecond ⊢
  generalize interpret fuel ss m = r' at hsecond ⊢
  cases hsecond with
  | done hm => exact .some ⟨.ok, hm.output⟩
  | fault he hm =>
    exact .some ⟨.runtimeError (congrArg Reportable.code he.item)
      (congrArg Reportable.message he.item), hm.output⟩
  | outOfFuel => exact .none

/-- What is printed between two sessions, the second of which comes after the first. -/
def printed (s t : Session) : ByteArray := t.machine.output.since s.machine.output.written.size

/-- In every session that can be reached, a program may be cut into two sources where a line ends.
If the first runs to a good end and the second is accepted after it, then the program is accepted.
It prints what the two print and ends as the second does, with the same code and message if that is
a fault. If the second never ends, neither does the program. -/
theorem Reaches.splits (hs : Reaches h s) (hf : f.text = a.text ++ "\n" ++ b.text)
    (hr : s.run fuel a = some (.ok, s₁)) (hb : b.Accepted s₁.nextId) :
    f.Accepted s.nextId ∧
      (∀ n o s₂, s₁.run n b = some (o, s₂) → ∀ m, fuel ≤ m → n ≤ m →
        ∃ o' t, s.run m f = some (o', t) ∧
          o.Agrees o' ∧ s.printed t = s.printed s₁ ++ s₁.printed s₂) ∧
      ((∀ n, s₁.run n b = none) → ∀ n, s.run n f = none) := by
  have hwhole : ∀ m, fuel ≤ m → _ := fun m hm => run_whole hs.numbered hf (run_mono hr hm) hb
  refine ⟨(hwhole fuel (Nat.le_refl _)).1, fun n o s₂ hn m hfuel hnm => ?_, fun hnever n => ?_⟩
  · have hrel := (hwhole m hfuel).2
    rw [run_mono hn hnm] at hrel
    generalize s.run m f = r at hrel ⊢
    cases hrel with
    | @some _ q hq =>
      obtain ⟨o', t⟩ := q
      refine ⟨o', t, rfl, hq.1, ?_⟩
      rw [printed, hq.2]
      exact (begins_of_run hr).since_eq (begins_of_run hn)
  · have hrel := (hwhole (max fuel n) (Nat.le_max_left _ _)).2
    rw [hnever] at hrel
    cases hn : s.run n f with
    | none => rfl
    | some q =>
      rw [run_mono hn (Nat.le_max_right _ _)] at hrel
      cases hrel

/-- Declares a function and ends with a comment. -/
def firstPart : SourceFile := ⟨"first.lox", "fun show() { print true; } // up to the end"⟩

/-- Calls the function, and then what cannot be called. -/
def secondPart : SourceFile := ⟨"second.lox", "show(); nil();"⟩

def bothParts : SourceFile := ⟨"both.lox", firstPart.text ++ "\n" ++ secondPart.text⟩

/-- Whether the first part ends well and the second is accepted and faults. -/
def partsFault : Option (Outcome × Session) → Bool
  | some (.ok, s) =>
    match s.run 60 secondPart with
    | some (.runtimeError _, _) => !(Analysis.ofFile secondPart s.nextId).errors.hasErrors
    | _ => false
  | _ => false

/-- The comment ends with its line, and the whole faults as the two do one after the other. -/
theorem splits_after_comment :
    ∃ s₁ s₂ t d d', (initial fun _ => 0).run 60 firstPart = some (.ok, s₁) ∧
    s₁.run 60 secondPart = some (.runtimeError d, s₂) ∧
    (initial fun _ => 0).run 60 bothParts = some (.runtimeError d', t) ∧ d'.code = d.code ∧
    (initial fun _ => 0).printed t = (initial fun _ => 0).printed s₁ ++ s₁.printed s₂ := by
  have hfault : partsFault ((initial fun _ => 0).run 60 firstPart) = true := by decide +kernel
  unfold partsFault at hfault
  split at hfault
  · rename_i s₁ hr
    split at hfault
    · rename_i d s₂ hd
      have hb := (Analysis.accepted_iff secondPart s₁.nextId).mp (by simpa using hfault)
      obtain ⟨-, hends, -⟩ := Reaches.splits (.initial _ _ _) (f := bothParts) rfl hr hb
      obtain ⟨o', t, ht, ho, hprinted⟩ := hends 60 _ s₂ hd 60 (Nat.le_refl _) (Nat.le_refl _)
      cases ho with
      | runtimeError hcode _ => exact ⟨s₁, s₂, t, d, _, hr, hd, ht, hcode, hprinted⟩
    · cases hfault
  · cases hfault

end Session

end Lox
