import Mathlib.Order.Defs.LinearOrder
import Mathlib.Order.Lattice
import Lox.Proofs.Token.Lexemes
/-!
# Tokens in order

Positions are ordered by line and then by column. The tokens of a text stand in it one after the
other: each ends before the next one starts, and the mark at the end is not before any of them.
-/

namespace Lox

namespace Position

variable {p q : Position}

theorem le_iff : p ≤ q ↔ p.line < q.line ∨ (p.line = q.line ∧ p.column ≤ q.column) := Iff.rfl

/-- First by line, then by column. -/
instance : LinearOrder Position where
  le_refl p := .inr ⟨rfl, Nat.le_refl _⟩
  le_trans p q r hpq hqr := by
    rw [le_iff] at *
    omega
  le_antisymm p q hpq hqp := by
    obtain ⟨l, k⟩ := p
    obtain ⟨l', k'⟩ := q
    rw [le_iff] at *
    rw [mk.injEq]
    dsimp only at *
    omega
  le_total p q := by
    rw [le_iff, le_iff]
    omega
  toDecidableLE := inferInstance

/-- A text moves the position on: to a later line, or by a column for each of its characters. -/
theorem afterAll_moves (p : Position) (cs : List Char) :
    (p.line < (p.afterAll cs).line ∧ 1 ≤ (p.afterAll cs).column) ∨
      (p.afterAll cs).line = p.line ∧ (p.afterAll cs).column = p.column + cs.length := by
  induction cs generalizing p with
  | nil => exact .inr ⟨rfl, rfl⟩
  | cons c cs ih =>
    rw [afterAll_cons, List.length_cons]
    have h := ih (p.after c)
    unfold after at h ⊢
    split at h <;> rename_i hc
    · rw [if_pos hc]
      dsimp only at h ⊢
      omega
    · rw [if_neg hc]
      dsimp only at h ⊢
      omega

/-- Columns are counted from one. -/
theorem column_afterAll (hp : 1 ≤ p.column) (cs : List Char) : 1 ≤ (p.afterAll cs).column := by
  have h := p.afterAll_moves cs
  omega

theorem le_afterAll (p : Position) (cs : List Char) : p ≤ p.afterAll cs := by
  have h := p.afterAll_moves cs
  rw [le_iff]
  omega

end Position

namespace Span

variable {p : Position} {w : List Char}

/-- A piece of text that is not empty ends no sooner than it starts. -/
theorem first_le_last_upTo (p : Position) (hw : w ≠ []) : p ≤ (upTo p (p.afterAll w)).last := by
  have h := p.afterAll_moves w
  have hlength := List.length_pos_iff.mpr hw
  rw [Position.le_iff]
  dsimp only [upTo]
  omega

/-- What comes after a piece of text starts no sooner than the piece ends. -/
theorem last_upTo_le (hp : 1 ≤ p.column) (w : List Char) :
    (upTo p (p.afterAll w)).last ≤ p.afterAll w := by
  have h := p.column_afterAll hp w
  rw [Position.le_iff]
  dsimp only [upTo]
  omega

end Span

namespace Token

variable {p q : Position} {t : Token} {ts : List Token}

/-- The tokens stand one after the other, the first of them no sooner than at `p`. -/
structure InOrder (p : Position) (ts : List Token) : Prop where
  lower : ∀ t ∈ ts, p ≤ t.span.first
  ordered : ts.Pairwise fun t u => t.span.last ≤ u.span.first
  proper : ∀ t ∈ ts, t.span.first ≤ t.span.last

theorem InOrder.mono (h : InOrder p ts) (hq : q ≤ p) : InOrder q ts :=
  ⟨fun t ht => hq.trans (h.lower t ht), h.ordered, h.proper⟩

theorem InOrder.cons (h : InOrder p ts) (hq : q ≤ t.span.first) (ht : t.span.first ≤ t.span.last)
    (hp : t.span.last ≤ p) : InOrder q (t :: ts) where
  lower := List.forall_mem_cons.mpr ⟨hq, fun u hu => hq.trans (ht.trans (hp.trans (h.lower u hu)))⟩
  ordered := List.pairwise_cons.mpr ⟨fun u hu => hp.trans (h.lower u hu), h.ordered⟩
  proper := List.forall_mem_cons.mpr ⟨ht, h.proper⟩

end Token

variable {p : Position} {cs : List Char} {ps : List Piece}

/-- A text that stands at `p` is cut into tokens that stand one after the other. -/
theorem Piece.Accounts.inOrder (h : Piece.Accounts cs ps) (hp : 1 ≤ p.column) :
    Token.InOrder p (Lexed.ofPieces p ps).tokens := by
  have hend : ∀ q : Position, Token.InOrder q [⟨.eof, .point q⟩] := fun q =>
    ⟨List.forall_mem_singleton.mpr le_rfl, List.pairwise_singleton _ _,
      List.forall_mem_singleton.mpr le_rfl⟩
  induction h generalizing p with
  | nil => exact hend p
  | blank _ _ ih | comment _ _ _ ih | unexpected _ _ _ _ ih =>
    exact (ih (p.column_afterAll hp _)).mono (p.le_afterAll _)
  | unterminated => exact (hend _).mono (p.le_afterAll _)
  | token hw _ _ ih =>
    exact (ih (p.column_afterAll hp _)).cons le_rfl (Span.first_le_last_upTo p hw.lexeme.ne_nil)
      (Span.last_upTo_le hp _)

/-- The last token of a text is the mark at its end. -/
theorem Lexed.getLast?_ofPieces (p : Position) (ps : List Piece) :
    ∃ q, (ofPieces p ps).tokens.getLast? = some ⟨.eof, .point q⟩ := by
  induction ps generalizing p with
  | nil => exact ⟨p, rfl⟩
  | cons piece ps ih =>
    obtain ⟨q, hq⟩ := ih (p.afterAll piece.text)
    refine ⟨q, ?_⟩
    unfold ofPieces
    split
    · exact hq
    · rw [List.getLast?_cons, hq]
      rfl
    · exact hq

theorem Lexed.inOrder_ofText (text : String) : Token.InOrder .start (ofText text).tokens :=
  (Piece.accounts_all text.toList).inOrder (Nat.le_refl 1)

end Lox
