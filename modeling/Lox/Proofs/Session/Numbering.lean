import Lox.Proofs.Session.Reach
/-!
# Numbers are given once

Whatever the tokens are, the expressions that are read have different numbers, and the number of
each is greater than those of the expressions in it. A session goes on with the next number after
every source, also after one that is rejected, so no two expressions of all its sources share a
number, and the distances of a source are never those of an expression of an earlier one.
-/

namespace Lox

/-! ### The numbers of a program -/

def Sight.expr? : Sight → Option Expr
  | .expr e => some e
  | _ => none

/-- All expressions in a program, also those inside of others. -/
def Program.expressions (p : Program) : List Expr := (Stmt.sightsAll p.body).filterMap Sight.expr?

def Program.numbers (p : Program) : List Nat := p.expressions.map fun e => e.site.id

private theorem Sight.map_id_expr? (v : Sight) : v.expr?.map (fun e => e.site.id) = v.id? := by
  cases v <;> rfl

theorem Program.numbers_eq (p : Program) :
    p.numbers = (Stmt.sightsAll p.body).filterMap Sight.id? := by
  rw [numbers, expressions, List.map_filterMap]
  exact congrArg (fun g => List.filterMap g _) (funext Sight.map_id_expr?)

private theorem Program.sight_of_mem_expressions {p : Program} {e : Expr} (he : e ∈ p.expressions) :
    Sight.expr e ∈ Stmt.sightsAll p.body := by
  obtain ⟨v, hv, hve⟩ := List.mem_filterMap.mp he
  cases v <;> cases hve
  exact hv

/-- What reading makes sure of, for any tokens. -/
theorem Parsed.fit_any (tokens : List Token) (firstId : Nat) :
    Fit (fun _ => True) (fun _ => True) firstId (ofTokens tokens firstId).nextId
      (Stmt.sightsAll (ofTokens tokens firstId).program.body) :=
  (fit_ofTokens ⟨fun _ _ => ⟨trivial, fun _ _ => trivial⟩, trivial, fun _ _ => trivial⟩).1

/-- The numbers of a program that is read from any tokens. -/
structure Parsed.Numbered (firstId : Nat) (p : Parsed) : Prop where
  distinct : p.program.numbers.Nodup
  range : ∀ i ∈ p.program.numbers, firstId ≤ i ∧ i < p.nextId
  outward : ∀ e ∈ p.program.expressions, ∀ i ∈ Expr.nodesAll e.operands, i.site.id < e.site.id

theorem Parsed.numbered_ofTokens (tokens : List Token) (firstId : Nat) :
    (ofTokens tokens firstId).Numbered firstId := by
  have hfit := fit_any tokens firstId
  constructor
  · rw [Program.numbers_eq]
    exact hfit.nodup
  · rw [Program.numbers_eq]
    exact hfit.range
  · exact fun e he => hfit.last e (Program.sight_of_mem_expressions he)

/-! ### The numbers of a session -/

namespace Session

variable {ps : List Program} {s t : Session} {f : SourceFile} {fuel : Nat} {o : Outcome}

/-- The sessions that runs of sources lead to, with the programs that were read, the last one first.
A program that is rejected is among them. -/
inductive HasRead : List Program → Session → Prop where
  | initial (output : Output) (maxDepth : Nat) (clock : Nat → Float) :
    HasRead [] ⟨.initial output maxDepth clock, 0, 0⟩
  | run {ps : List Program} {s t : Session} {fuel : Nat} {f : SourceFile} {o : Outcome} :
    HasRead ps s → s.run fuel f = some (o, t) →
    HasRead ((Analysis.ofFile f s.nextId).program :: ps) t

theorem HasRead.reaches (hs : HasRead ps s) : ∃ h, Reaches h s := by
  induction hs with
  | initial output maxDepth clock => exact ⟨_, .initial output maxDepth clock⟩
  | run _ hr ih =>
    obtain ⟨h, hh⟩ := ih
    exact ⟨_, .run hh hr⟩

/-- However a run ends, the next number is the one after the source. -/
theorem nextId_of_run (hr : s.run fuel f = some (o, t)) :
    t.nextId = (Analysis.ofFile f s.nextId).nextId := by
  unfold run at hr
  dsimp only at hr
  split at hr
  · cases hr
    rfl
  · unfold ended at hr
    split at hr <;> cases hr <;> rfl

theorem numbered_ofFile (f : SourceFile) (s : Session) :
    Parsed.Numbered s.nextId (.ofTokens (Lexed.ofText f.text).tokens s.nextId) :=
  Parsed.numbered_ofTokens _ _

/-- The numbers of all programs that were read are different, and below the next one. -/
theorem HasRead.numbers (hs : HasRead ps s) :
    (ps.flatMap Program.numbers).Nodup ∧ ∀ i ∈ ps.flatMap Program.numbers, i < s.nextId := by
  induction hs with
  | initial => exact ⟨.nil, nofun⟩
  | @run ps s t fuel f o _ hr ih =>
    have hnew := numbered_ofFile f s
    have hle : s.nextId ≤ (Analysis.ofFile f s.nextId).nextId :=
      (Analysis.fit_ofFile f s.nextId).1.le
    rw [nextId_of_run hr, List.flatMap_cons]
    refine ⟨List.nodup_append.mpr ⟨hnew.distinct, ih.1, fun i hi j hj => ?_⟩, fun i hi => ?_⟩
    · have hlow := (hnew.range i hi).1
      have hhigh := ih.2 j hj
      omega
    · rcases List.mem_append.mp hi with hi | hi
      · exact (hnew.range i hi).2
      · exact Nat.lt_of_lt_of_le (ih.2 i hi) hle

/-- Reading numbers the expressions of a program from inside outward, each with a number of its own,
and in a session the numbers of a further source are new: where an earlier expression has a
distance, it keeps it. -/
theorem numbers_given_once :
    (∀ tokens firstId, (Parsed.ofTokens tokens firstId).Numbered firstId) ∧
    ∀ programs s, HasRead programs s → (programs.flatMap Program.numbers).Nodup ∧
      ∀ f : SourceFile, let a := Analysis.ofFile f s.nextId
        (∀ i ∈ a.program.numbers, i ∉ programs.flatMap Program.numbers) ∧
        ∀ i d, s.machine.distances.get? i = some d →
          a.distances.get? i = none ∧
          (s.machine.addDistances a.distances).distances.get? i = some d := by
  refine ⟨Parsed.numbered_ofTokens,
    fun programs s hs => ⟨hs.numbers.1, fun f => ⟨?_, fun i d hd => ?_⟩⟩⟩
  · intro i hnew hi
    exact Nat.not_lt.mpr ((numbered_ofFile f s).range i hnew).1 (hs.numbers.2 i hi)
  · obtain ⟨h, hh⟩ := hs.reaches
    have hlt : i < s.nextId := by
      by_contra hge
      have hnone := hh.sound.history.unrecorded i (Nat.not_lt.mp hge)
      rw [hnone] at hd
      cases hd
    have hnone : (Analysis.ofFile f s.nextId).distances.get? i = none :=
      Analysis.get?_distances_of_notMem (.inl hlt)
    refine ⟨hnone, ?_⟩
    rw [Machine.addDistances, Distances.get?_extend, hnone, hd]
    rfl

/-- An assignment to a literal, and a call that is cut off. -/
def brokenSource : SourceFile := ⟨"broken.lox", "1 = 2 + 3; f(;"⟩

def wholeSource : SourceFile := ⟨"whole.lox", "{ var a; a = 4 + 5; }"⟩

/-- The literal keeps its number. Those of what is dropped are not given again, and the next source
goes on after them. -/
theorem numbers_given_once_broken : ∃ programs s, HasRead programs s ∧
    programs.map Program.numbers = [[6, 7, 8, 9], [0]] ∧
    (programs.flatMap Program.numbers).Nodup := by
  have hends :
      (((initial fun _ => 0).run 20 brokenSource).bind fun p => p.2.run 20 wholeSource).isSome := by
    decide +kernel
  obtain ⟨⟨o', t⟩, ht⟩ := Option.isSome_iff_exists.mp hends
  obtain ⟨⟨o, s⟩, hs, ht⟩ := Option.bind_eq_some_iff.mp ht
  have hread := HasRead.run (.run (.initial _ _ _) hs) ht
  have hnext : s.nextId = 5 := (nextId_of_run hs).trans (by decide +kernel)
  have hbroken : (Analysis.ofFile brokenSource 0).program.numbers = [0] := by decide +kernel
  have hwhole : (Analysis.ofFile wholeSource s.nextId).program.numbers = [6, 7, 8, 9] := by
    rw [hnext]
    decide +kernel
  refine ⟨_, t, hread, ?_, (numbers_given_once.2 _ _ hread).1⟩
  rw [List.map_cons, List.map_cons, hwhole, hbroken]
  rfl

end Session

end Lox
