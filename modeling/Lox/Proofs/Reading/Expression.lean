import Lox.Syntax.Expression
import Lox.Proofs.Reading.Cursor
/-!
# Reading expressions keeps them fit

The nodes of an expression get their numbers in the order in which they are read. The target of an
assignment is given up when the assignment is made, and its number with it.
-/

namespace Lox

variable {P : Position → Prop} {N : String → Prop}

/-- Whether all in an expression is fit, its numbers being those from `lo` up to `hi`. -/
def Expr.Fit (P : Position → Prop) (N : String → Prop) (lo hi : Nat) (e : Expr) : Prop :=
  Lox.Fit P N lo hi e.sights

namespace Fit

variable {lo mid hi n : Nat} {l : List Sight}

/-- Operands that were read before the node that joins them. -/
theorem join {e : Expr} (hl : Fit P N lo n (Expr.sightsAll e.operands)) (hn : e.site.id = n)
    (hp : (Sight.expr e).Named N) (hs : ∀ s ∈ (Sight.expr e).spans, P s.first) :
    e.Fit P N lo (n + 1) := by
  subst hn
  rw [Expr.Fit, e.sights_eq]
  refine hl.append (node hp hs fun i hi => (hl.range i.site.id ?_).2)
  exact List.mem_filterMap.mpr ⟨.expr i, List.mem_map_of_mem hi, rfl⟩

/-- An expression that is a node by itself. -/
theorem leaf {e : Expr} (he : e.operands = []) (hn : e.site.id = n) (hp : (Sight.expr e).Named N)
    (hs : ∀ s ∈ (Sight.expr e).spans, P s.first) : e.Fit P N n (n + 1) :=
  join (by rw [he]; exact nil (Nat.le_refl n)) hn hp hs

end Fit

namespace Reader

private theorem runs_infixNode {c : Cursor} (hc : c.Ok P N) {lo mid : Nat} {l r : Expr}
    {op : InfixOp} {t : Span} (hl : l.Fit P N lo mid) (hr : r.Fit P N mid c.nextId)
    (ht : P t.first) : (infixNode l op t r).Runs P N c fun e d => e.Fit P N lo d.nextId := by
  apply (runs_site hc _).bind
  intro s d hd _ h
  obtain ⟨rfl, hn⟩ := h
  have ho : Fit P N lo c.nextId (Expr.sightsAll [l, r]) := by simpa using hl.append hr
  cases op with
  | logical o =>
    refine runs_pure hd ?_
    rw [hn]
    exact Fit.join ho rfl trivial (by simp [Sight.spans])
  | binary o =>
    refine runs_pure hd ?_
    rw [hn]
    exact Fit.join ho rfl trivial (by simp [Sight.spans, ht])

private theorem runs_assignNode {c : Cursor} (hc : c.Ok P N) {lo mid : Nat} {target value : Expr}
    {t : Span} (hl : target.Fit P N lo mid) (hr : value.Fit P N mid c.nextId) (ht : P t.first) :
    (assignNode target t value).Runs P N c fun e d => e.Fit P N lo d.nextId := by
  have hle : mid ≤ c.nextId := hr.le
  unfold assignNode
  split
  · rename_i s x
    apply (runs_site hc _).bind
    intro s d hd _ h
    obtain ⟨rfl, hn⟩ := h
    refine runs_pure hd ?_
    have hp := hl.proper _ List.mem_cons_self
    have hs := hl.start _ List.mem_cons_self x.span (by simp [Sight.spans])
    have hv : Fit P N lo c.nextId (Expr.sightsAll [value]) := by
      simpa using (Fit.nil hl.le).append hr
    rw [hn]
    exact Fit.join hv rfl hp (by simp [Sight.spans, hs])
  · rename_i s object x
    apply (runs_site hc _).bind
    intro s d hd _ h
    obtain ⟨rfl, hn⟩ := h
    refine runs_pure hd ?_
    rw [Expr.Fit, Expr.sights, Expr.nodes, List.map_append] at hl
    have hs :=
      hl.start _ (List.mem_append_right _ List.mem_cons_self) x.span (by simp [Sight.spans])
    -- The value is read after the object and resolved before it.
    have ho : Fit P N lo mid object.sights := hl.sublist (List.sublist_append_left _ _)
    have hv : Fit P N lo c.nextId (Expr.sightsAll [value, object]) := by
      simpa using (ho.append hr).perm List.perm_append_comm
    rw [hn]
    exact Fit.join hv rfl trivial (by simp [Sight.spans, hs])
  · refine Runs.bind (Q := fun _ d => d.nextId =
      c.nextId) ⟨hc.reportAt _ ht, Nat.le_refl _, fun _ _ => rfl⟩
      fun _ d hd _ h => ?_
    refine runs_pure hd ?_
    have hn : Fit P N mid d.nextId [] := Fit.nil (h ▸ hle)
    simpa [Expr.Fit] using hl.append hn

/-- What the readers of expressions make sure of when they nest no deeper than `fuel`. -/
structure ExpressionRuns (P : Position → Prop) (N : String → Prop) (fuel : Nat) : Prop where
  assignment : ∀ c : Cursor, c.Ok P N →
    (assignment fuel).Runs P N c fun e d => e.Fit P N c.nextId d.nextId
  level : ∀ (c : Cursor) l, c.Ok P N →
    (level fuel l).Runs P N c fun e d => e.Fit P N c.nextId d.nextId
  moreOperands : ∀ (c : Cursor) l lo left, c.Ok P N → left.Fit P N lo c.nextId →
    (moreOperands fuel l left).Runs P N c fun e d => e.Fit P N lo d.nextId
  operand : ∀ (c : Cursor) l, c.Ok P N →
    (operand fuel l).Runs P N c fun e d => e.Fit P N c.nextId d.nextId
  unary : ∀ c : Cursor, c.Ok P N → (unary fuel).Runs P N c fun e d => e.Fit P N c.nextId d.nextId
  calls : ∀ (c : Cursor) lo e, c.Ok P N → e.Fit P N lo c.nextId →
    (calls fuel e).Runs P N c fun e d => e.Fit P N lo d.nextId
  arguments : ∀ (c : Cursor) count, c.Ok P N →
    (arguments fuel count).Runs P N c fun es d => Fit P N c.nextId d.nextId (Expr.sightsAll es)
  primary : ∀ c : Cursor, c.Ok P N →
    (primary fuel).Runs P N c fun e d => e.Fit P N c.nextId d.nextId

namespace ExpressionRuns

variable {c : Cursor} {fuel : Nat}

theorem assignment_succ (ih : ExpressionRuns P N fuel) (hc : c.Ok P N) :
    (Reader.assignment (fuel + 1)).Runs P N c fun e d => e.Fit P N c.nextId d.nextId := by
  rw [Reader.assignment]
  apply (ih.level c .or hc).bind
  intro target d hd _ ht
  apply (runs_eat hd .eq).bind
  intro b e he _ hb
  rw [← hb.1] at ht
  split
  · rename_i hbt
    apply (runs_ask he Cursor.previous).bind
    intro s f hf _ hs
    obtain ⟨rfl, rfl⟩ := hs
    apply (ih.assignment f hf).bind
    intro value g hg _ hv
    exact runs_assignNode hg ht hv (hb.2 hbt)
  · exact runs_pure he ht

theorem moreOperands_succ (ih : ExpressionRuns P N fuel) (hc : c.Ok P N) (l : Level) {lo : Nat}
    {left : Expr} (hl : left.Fit P N lo c.nextId) :
    (Reader.moreOperands (fuel + 1) l left).Runs P N c fun e d => e.Fit P N lo d.nextId := by
  rw [Reader.moreOperands]
  apply (runs_ask hc Cursor.kind).bind
  intro k d hd _ hk
  obtain ⟨-, rfl⟩ := hk
  split
  · exact runs_pure hd hl
  · apply (runs_advance hd).bind
    intro t e he _ ht
    rw [← ht.2] at hl
    apply (ih.operand e l he).bind
    intro right f hf _ hr
    apply (runs_infixNode hf hl hr ht.1).bind
    intro node g hg _ hn
    exact ih.moreOperands g l lo node hg hn

theorem operand_succ (ih : ExpressionRuns P N fuel) (hc : c.Ok P N) (l : Level) :
    (Reader.operand (fuel + 1) l).Runs P N c fun e d => e.Fit P N c.nextId d.nextId := by
  rw [Reader.operand]
  split
  · exact ih.level c _ hc
  · exact ih.unary c hc

theorem unary_succ (ih : ExpressionRuns P N fuel) (hc : c.Ok P N) :
    (Reader.unary (fuel + 1)).Runs P N c fun e d => e.Fit P N c.nextId d.nextId := by
  rw [Reader.unary]
  apply (runs_ask hc Cursor.kind).bind
  intro k d hd _ hk
  obtain ⟨-, rfl⟩ := hk
  split
  · exact (ih.primary d hd).bind fun e f hf _ he => ih.calls f d.nextId e hf he
  · apply (runs_advance hd).bind
    intro t e he _ ht
    apply (ih.unary e he).bind
    intro operand f hf _ ho
    apply (runs_site hf _).bind
    intro s g hg _ hs
    obtain ⟨rfl, hn⟩ := hs
    refine runs_pure hg ?_
    rw [hn, ← ht.2]
    exact Fit.join (by simpa [Expr.operands, Expr.Fit] using ho) rfl trivial
      (by simp [Sight.spans, ht.1])

theorem calls_succ (ih : ExpressionRuns P N fuel) (hc : c.Ok P N) {lo : Nat} {e : Expr}
    (he : e.Fit P N lo c.nextId) :
    (Reader.calls (fuel + 1) e).Runs P N c fun e d => e.Fit P N lo d.nextId := by
  rw [Reader.calls]
  apply (runs_eat hc .leftParen).bind
  intro b d hd _ hb
  rw [← hb.1] at he
  split
  · have hrest : ∀ es f, f.Ok P N → d.nextId ≤ f.nextId →
        Fit P N d.nextId f.nextId (Expr.sightsAll es) →
        (do
          let paren ← expect .rightParen "after arguments"
          let s ← site (e.span.merge paren)
          Reader.calls fuel (.call s e paren es) : Reader Expr).Runs P N f
            fun e d => e.Fit P N lo d.nextId := by
      intro es f hf _ hes
      apply (runs_expect hf _ _).bind
      intro t g hg _ ht
      rw [← ht.2] at hes
      apply (runs_site hg _).bind
      intro s i hi _ hs
      obtain ⟨rfl, hn⟩ := hs
      refine ih.calls i lo _ hi ?_
      rw [hn]
      exact Fit.join (by simpa [Expr.operands] using Fit.append he hes) rfl trivial
        (by simp [Sight.spans, ht.1])
    apply (runs_ask hd _).bind
    intro b' f hf _ hb'
    obtain ⟨-, rfl⟩ := hb'
    split
    · exact (runs_pure hf (Fit.nil (Nat.le_refl _))).bind hrest
    · exact (ih.arguments f 0 hf).bind hrest
  · apply (runs_eat hd .dot).bind
    intro b' f hf _ hb'
    rw [← hb'.1] at he
    split
    · apply (runs_name hf _).bind
      intro x g hg _ hx
      rw [← hx.2.2] at he
      apply (runs_site hg _).bind
      intro s i hi _ hs
      obtain ⟨rfl, hn⟩ := hs
      refine ih.calls i lo _ hi ?_
      rw [hn]
      exact Fit.join (by simpa [Expr.operands, Expr.Fit] using he) rfl trivial
        (by simp [Sight.spans, hx.2.1])
    · exact runs_pure hf he

theorem arguments_succ (ih : ExpressionRuns P N fuel) (hc : c.Ok P N) (count : Nat) :
    (Reader.arguments (fuel + 1) count).Runs P N c
      fun es d => Fit P N c.nextId d.nextId (Expr.sightsAll es) := by
  have hrest : ∀ d : Cursor, d.Ok P N → d.nextId = c.nextId →
      (do
        let e ← Reader.assignment fuel
        if ← eat .comma then
          let es ← Reader.arguments fuel (count + 1)
          pure (e :: es)
        else
          pure [e] : Reader (List Expr)).Runs P N d
        fun es d => Fit P N c.nextId d.nextId (Expr.sightsAll es) := by
    intro d hd hn
    rw [← hn]
    apply (ih.assignment d hd).bind
    intro e f hf _ he
    apply (runs_eat hf .comma).bind
    intro b g hg _ hb
    rw [← hb.1] at he
    split
    · refine (ih.arguments g (count + 1) hg).bind fun es i hi _ hes => runs_pure hi ?_
      rw [Expr.sightsAll, Expr.nodesAll, List.map_append]
      exact Fit.append he hes
    · refine runs_pure hg ?_
      rw [Expr.sightsAll, Expr.nodesAll, Expr.nodesAll, List.append_nil]
      exact he
  rw [Reader.arguments]
  split
  · exact (runs_report hc _).bind fun _ d hd _ hn => hrest d hd hn
  · exact hrest c hc rfl

theorem primary_succ (ih : ExpressionRuns P N fuel) (hc : c.Ok P N) :
    (Reader.primary (fuel + 1)).Runs P N c fun e d => e.Fit P N c.nextId d.nextId := by
  rw [Reader.primary]
  apply (runs_ask hc Cursor.span).bind
  intro start d hd _ hs
  obtain ⟨rfl, rfl⟩ := hs
  apply (runs_ask hd Cursor.kind).bind
  intro kind e he _ hk
  obtain ⟨rfl, rfl⟩ := hk
  split
  · refine (runs_advance hd).bind fun _ e he _ ht => (runs_site he _).bind fun s f hf _ hs => ?_
    obtain ⟨rfl, hn⟩ := hs
    refine runs_pure hf ?_
    rw [hn, ← ht.2]
    exact Fit.leaf rfl rfl trivial (by simp [Sight.spans, hc.span])
  · rename_i x hx
    refine (runs_advance hd).bind fun _ e he _ ht => (runs_site he _).bind fun s f hf _ hs => ?_
    obtain ⟨rfl, hn⟩ := hs
    refine runs_pure hf ?_
    rw [hn, ← ht.2]
    exact Fit.leaf rfl rfl (hc.named hx) (by simp [Sight.spans, hc.span])
  · apply (runs_advance hd).bind
    intro _ e he _ ht
    apply (runs_expect he _ _).bind
    intro _ f hf _ hdot
    apply (runs_name hf _).bind
    intro x g hg _ hx
    apply (runs_site hg _).bind
    intro s i hi _ hs
    obtain ⟨rfl, hn⟩ := hs
    refine runs_pure hi ?_
    rw [hn, ← ht.2, ← hdot.2, ← hx.2.2]
    refine Fit.leaf rfl rfl trivial ?_
    simp [Sight.spans, hx.2.1, Span.first_merge hc.span hx.2.1]
  · apply (runs_advance hd).bind
    intro _ e he _ ht
    apply (ih.assignment e he).bind
    intro inner f hf _ hi
    apply (runs_expect hf _ _).bind
    intro _ g hg _ hp
    apply (runs_site hg _).bind
    intro s k hk _ hs
    obtain ⟨rfl, hn⟩ := hs
    refine runs_pure hk ?_
    rw [← hp.2] at hi
    rw [hn, ← ht.2]
    exact Fit.join (by simpa [Expr.operands, Expr.Fit] using hi) rfl trivial (by simp [Sight.spans])
  · split
    · refine (runs_advance hd).bind fun _ e he _ ht => (runs_site he _).bind fun s f hf _ hs => ?_
      obtain ⟨rfl, hn⟩ := hs
      refine runs_pure hf ?_
      rw [hn, ← ht.2]
      exact Fit.leaf rfl rfl trivial (by simp [Sight.spans])
    · exact (runs_report hd _).bind fun _ e he _ _ => runs_fail he

end ExpressionRuns

private theorem expressionRuns (P : Position → Prop) (N : String → Prop) (fuel : Nat) :
    ExpressionRuns P N fuel := by
  induction fuel with
  | zero =>
    constructor
    · exact fun _ hc => runs_fail hc
    · exact fun _ _ hc => runs_fail hc
    · exact fun _ _ _ _ hc _ => runs_fail hc
    · exact fun _ _ hc => runs_fail hc
    · exact fun _ hc => runs_fail hc
    · exact fun _ _ _ hc _ => runs_fail hc
    · exact fun _ _ hc => runs_fail hc
    · exact fun _ hc => runs_fail hc
  | succ fuel ih =>
    exact {
      assignment := fun _ hc => ih.assignment_succ hc
      level := fun c l hc => by
        rw [level]
        exact (ih.operand c l hc).bind fun left d hd _ hl => ih.moreOperands d l c.nextId left hd hl
      moreOperands := fun _ l _ _ hc hl => ih.moreOperands_succ hc l hl
      operand := fun _ l hc => ih.operand_succ hc l
      unary := fun _ hc => ih.unary_succ hc
      calls := fun _ _ _ hc he => ih.calls_succ hc he
      arguments := fun _ count hc => ih.arguments_succ hc count
      primary := fun _ hc => ih.primary_succ hc }

theorem runs_expression {c : Cursor} (hc : c.Ok P N) :
    expression.Runs P N c fun e d => e.Fit P N c.nextId d.nextId :=
  Runs.fuelled (r := assignment) (f := expressionFuel)
    ((expressionRuns P N (expressionFuel c)).assignment c hc)

end Reader

end Lox
