import Lox.Proofs.Loops.Abreast
import Lox.Proofs.Loops.Fuel
/-!
# Round by round

The statements that a loop stands for and the loop itself go side by side, round by round. Where
there is an increment, a round of the statements has a frame that holds nothing, since the body
declares nothing there; so the body and the increment stand inside an extra frame, and all else
stands outside of it.
-/

namespace Lox

variable {D : Distances} {P : Pairing} {m m' : Machine}

namespace ForLoop

/-- Where the body stands in the statements that the loop stands for. -/
def setting (l : ForLoop) : Setting := if l.increment.isSome then .inside 0 else .outside

/-- The parts of a loop and their copies, when the distances are in `D`. -/
structure Lifted (D : Distances) (l l' : ForLoop) : Prop where
  initial : Option.Rel (Stmt.Lifted D .outside) l.initial l'.initial
  condition : Option.Rel (Expr.Lifted D .outside) l.condition l'.condition
  increment : Option.Rel (Expr.Lifted D l.setting) l.increment l'.increment
  body : l.body.Lifted D l.setting l'.body

namespace Lifted

variable {l l' : ForLoop} (h : l.Lifted D l') (fuel : Nat)

include h

theorem test (hm : m.Abreast D P .outside m') :
    Run.Abreast D P .outside (l.test fuel) m (l'.test fuel) m' Same := by
  unfold ForLoop.test
  obtain ⟨hl, hl'⟩ | ⟨c, c', hl, hl', hc⟩ := Paired.of_rel h.condition <;> rw [hl, hl']
  · exact .pure hm rfl
  · exact .truthy ((abreast D fuel).1 _ _ _ _ hc _ _ hm)

theorem advance (hm : m.Abreast D P l.setting m') :
    Run.Abreast D P l.setting (l.advance fuel) m (l'.advance fuel) m' Same := by
  unfold ForLoop.advance
  obtain ⟨hl, hl'⟩ | ⟨e, e', hl, hl', he⟩ := Paired.of_rel h.increment <;> rw [hl, hl']
  · exact .pure hm rfl
  · apply ((abreast D fuel).1 _ _ _ _ he _ _ hm).bind
    rintro _ v n n' Q ho rfl
    exact .pure ho.abreast rfl

theorem round (hm : m.Abreast D P l.setting m') :
    Run.Abreast D P l.setting (l.round fuel) m (l'.round fuel) m' Same :=
  .andThen ((abreast D fuel).2 _ _ _ _ h.body _ _ hm) fun _ _ _ _ hn => h.advance fuel hn

/-- The frame that a round of the statements may have is no difference. -/
theorem blockRound (hm : m.Abreast D P .outside m') :
    Run.Abreast D P .outside (l.blockRound fuel) m (l'.round fuel) m' Same := by
  have hround : ∀ P m, m.Abreast D P l.setting m' →
      Run.Abreast D P l.setting (l.round fuel) m (l'.round fuel) m' Same := fun _ _ hn =>
        h.round fuel hn
  unfold ForLoop.blockRound
  unfold setting at hround
  split
  · rename_i hi
    rw [if_pos hi] at hround
    exact .inExtraScope hm fun n Q _ hn => hround Q n hn
  · rename_i hi
    rw [if_neg hi] at hround
    exact hround P m hm

theorem run (hm : m.Abreast D P .outside m') :
    Run.Abreast D P .outside (l.runBlocks fuel) m (l'.run fuel) m' Same := by
  have hrounds : ∀ Q n n', n.Abreast D Q .outside n' →
      Run.Abreast D Q .outside (Run.loop (l.test fuel) (l.blockRound fuel) fuel) n
        (l'.rounds fuel) n' Same :=
    fun _ _ _ hn =>
      .loop (fun _ _ _ _ ho => h.test fuel ho) (fun _ _ _ _ ho => h.blockRound fuel ho) hn fuel
  unfold ForLoop.runBlocks ForLoop.run
  obtain ⟨hl, hl'⟩ | ⟨s, s', hl, hl', hs⟩ := Paired.of_rel h.initial <;> rw [hl, hl']
  · exact hrounds P m m' hm
  · exact .inScope hm fun n n' Q _ hn =>
      .andThen ((abreast D fuel).2 _ _ _ _ hs _ _ hn) fun o o' S _ ho => hrounds S o o' ho

end Lifted

end ForLoop

end Lox
