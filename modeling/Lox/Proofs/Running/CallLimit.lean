import Lox.Proofs.Running.Calls
import Lox.Proofs.Running.Restriction
import Lox.Session.Basic
/-!
# The limit on the depth of calls

A greater limit on the depth of calls changes nothing about a program that does not run into the
smaller one. A program that does has printed by then what it prints first within the greater limit.
-/

namespace Lox

/-- Two limits on the depth of calls. Within the smaller one a run stops where within the greater
one a call is entered, with the same store and output. -/
def Restriction.ofMaxDepth {l k : Nat} (h : l ≤ k) : Restriction where
  Goes a b := a.maxDepth = l ∧ b.maxDepth = k ∧ a.output = b.output
  Halts e s o u := e.item = .stackOverflow ∧ s = u.machine.store ∧ o = u.machine.output
  maxDepth_le hg := by rw [hg.1, hg.2.1]; exact h
  overflow _ hg _ _ := ⟨rfl, rfl, hg.2.2⟩
  write s hg _ := ⟨hg.1, hg.2.1, by rw [hg.2.2]⟩
  write_of_write s hg hw := hg.2.2 ▸ hw
  full s _ hg hl hk := by
    rw [hg.2.2] at hl
    exact absurd (hl.symm.trans hk) (by decide)

variable {α : Type} {l k : Nat} {h : l ≤ k} {m n : Machine}

theorem Restriction.Joins.eq_of_maxDepth (hj : (ofMaxDepth h).Joins m n) :
    n = { m with maxDepth := k } := by
  obtain ⟨hm, -, hk, ho⟩ := hj
  have ho : n.output = m.output := ho.symm
  rw [hm, ← hk]
  change n = { n with maxDepth := n.maxDepth, output := m.output }
  rw [← ho]

/-- The traced runs within two limits. -/
theorem agrees_of_maxDepth_le (h : l ≤ k) (fuel : Nat) (body : List Stmt) (m : Machine) :
    (Restriction.ofMaxDepth h).Agrees (traceAll fuel body (.start { m with maxDepth := l }))
      (traceAll fuel body (.start { m with maxDepth := k })) := by
  have hj : (Restriction.ofMaxDepth h).Joins { m with maxDepth := l } { m with maxDepth := k } :=
    ⟨rfl, rfl, rfl, rfl⟩
  exact ((Restriction.ofMaxDepth h).cuts_traceAll fuel body).agrees (.start hj)

/-- Within the greater limit a run ends in the same way, unless the other one overflows. -/
theorem Restriction.Agrees.result_of_maxDepth {x y : Ending Trail α}
    (hag : (ofMaxDepth h).Agrees x y) :
    y.result = x.result.on ({ · with maxDepth := k }) ∨
      ∃ e n, x.result = .fault e n ∧ e.item = .stackOverflow := by
  cases hag with
  | done ha => exact .inl (congrArg (Result.done _) ha.machine.eq_of_maxDepth)
  | fault ha => exact .inl (congrArg (Result.fault _) ha.machine.eq_of_maxDepth)
  | cut => exact .inl rfl
  | halted hu hh => exact .inr ⟨_, _, rfl, hh.1⟩

/-- The output at a fault is there within the greater limit. -/
theorem Restriction.Agrees.begins_of_maxDepth {x y : Ending Trail α}
    (hag : (ofMaxDepth h).Agrees x y) {e : Fault} {n : Machine} (hx : x.result = .fault e n) :
    n.output.Begins y.state.machine.output := by
  cases hag with
  | fault ha =>
    cases hx
    have houtput := congrArg Machine.output ha.machine.eq_of_maxDepth
    exact .of_eq houtput
  | halted hu hh =>
    cases hx
    exact hh.2.2 ▸ hu.output
  | done | cut => cases hx

/-- Traced runs of a program that comes to an end leave the same machine behind,
whatever the fuel is. -/
theorem machine_traceAll_of_le {fuel fuel' : Nat} (hf : fuel ≤ fuel') (body : List Stmt)
    (m : Machine) (h : interpret fuel body m ≠ .outOfFuel) :
    (traceAll fuel' body (.start m)).state.machine =
      (traceAll fuel body (.start m)).state.machine := by
  have hmono := interpret_mono hf body m h
  have h' : interpret fuel' body m ≠ .outOfFuel := hmono ▸ h
  rw [← result_traceAll] at h h'
  rw [← result_traceAll, ← result_traceAll] at hmono
  have hmachine := congrArg Result.machine? hmono
  rw [Ending.machine_result h, Ending.machine_result h'] at hmachine
  exact Option.some.inj hmachine

/-- What a program does within a limit on the depth of calls it does within a greater one. If it
comes to an end without overflow, it ends in the same way, in the same machine but for the limit. If
it overflows, its output is what comes first in the output within the greater limit, also if the
program does not come to an end there. -/
theorem interpret_of_maxDepth_le (h : l ≤ k) (fuel : Nat) (body : List Stmt) (m : Machine) :
    (∀ n, interpret fuel body { m with maxDepth := l } = .done () n →
      interpret fuel body { m with maxDepth := k } = .done () { n with maxDepth := k }) ∧
    (∀ e n, interpret fuel body { m with maxDepth := l } = .fault e n → e.item ≠ .stackOverflow →
      interpret fuel body { m with maxDepth := k } = .fault e { n with maxDepth := k }) ∧
    ∀ e n, interpret fuel body { m with maxDepth := l } = .fault e n → e.item = .stackOverflow →
      ∀ fuel', fuel ≤ fuel' ∨ interpret fuel' body { m with maxDepth := k } ≠ .outOfFuel →
        n.output.Begins
          (traceAll fuel' body (.start { m with maxDepth := k })).state.machine.output := by
  have hresult := (agrees_of_maxDepth_le h fuel body m).result_of_maxDepth
  rw [result_traceAll, result_traceAll] at hresult
  refine ⟨fun n hr => ?_, fun e n hr hitem => ?_, fun e n hr _ fuel' hf => ?_⟩
  · rw [hr] at hresult
    obtain hsame | ⟨e, o, ho, -⟩ := hresult
    · exact hsame
    · cases ho
  · rw [hr] at hresult
    obtain hsame | ⟨e', o, ho, hover⟩ := hresult
    · exact hsame
    · cases ho
      exact absurd hover hitem
  · -- With as much fuel as the first run had, the second one is at least where the first one stopped.
    have hle : ∀ fuel', fuel ≤ fuel' →
        n.output.Begins
          (traceAll fuel' body (.start { m with maxDepth := k })).state.machine.output := by
      intro fuel' hf
      have hend : interpret fuel body { m with maxDepth := l } ≠ .outOfFuel := fun hout => by
        rw [hout] at hr
        cases hr
      rw [← interpret_mono hf body _ hend, ← result_traceAll] at hr
      exact (agrees_of_maxDepth_le h fuel' body m).begins_of_maxDepth hr
    rcases Nat.le_total fuel fuel' with hfuel | hfuel
    · exact hle fuel' hfuel
    · rcases hf with hf | hend
      · exact hle fuel' hf
      · rw [← machine_traceAll_of_le hfuel body _ hend]
        exact hle fuel (Nat.le_refl fuel)

/-- A function that prints what it is given and calls itself once. -/
def twiceSource : SourceFile := ⟨"twice.lox", "fun f(b) { print b; if (b) f(!b); } f(true);"⟩

/-- The machine in which the source starts. -/
def twiceEntry : Machine :=
  (Machine.initial .unlimited 0 fun _ => 0).addDistances (Analysis.ofFile twiceSource 0).distances

/-- The second call overflows if only one fits. With two that fit the program ends, and so it does
with any greater limit. -/
theorem interpret_of_maxDepth_le_twice :
    let body := (Analysis.ofFile twiceSource 0).program.body
    ∃ e m n, interpret 40 body { twiceEntry with maxDepth := 1 } = .fault e m ∧
    e.item = .stackOverflow ∧
      interpret 40 body { twiceEntry with maxDepth := 2 } = .done () n ∧ m.output.Begins n.output ∧
      ∀ k, 2 ≤ k →
      interpret 40 body { twiceEntry with maxDepth := k } = .done () { n with maxDepth := k } := by
  intro body
  have hover : (interpret 40 body { twiceEntry with maxDepth := 1 }).overflow?.isSome := by
    decide +kernel
  have hdone : (interpret 40 body { twiceEntry with maxDepth := 2 }).isDone := by decide +kernel
  clear_value body
  generalize twiceEntry = entry at hover hdone ⊢
  obtain ⟨e, m, hx, hitem⟩ := Result.exists_of_overflow hover
  obtain ⟨⟨⟩, n, hy⟩ := Result.exists_of_isDone hdone
  refine ⟨e, m, n, hx, hitem, hy, ?_,
    fun k hk => (interpret_of_maxDepth_le hk 40 body entry).1 n hy⟩
  have hbegins :=
    (interpret_of_maxDepth_le (l := 1) (k := 2) (by decide) 40 body entry).2.2 e m hx hitem 40
    (.inl (Nat.le_refl _))
  have hresult := result_traceAll 40 body { entry with maxDepth := 2 }
  have hlast := Ending.machine_result (x := traceAll 40 body (.start { entry with maxDepth := 2 }))
    (fun hout => by rw [hresult, hy] at hout; cases hout)
  rw [hresult, hy] at hlast
  exact (Option.some.inj hlast).symm ▸ hbegins

end Lox
