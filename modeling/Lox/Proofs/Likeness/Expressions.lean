import Lox.Syntax.Expression
import Lox.Proofs.Likeness.Cursor
/-!
# Reading expressions that are alike

Readers of expressions look at the token after what they read, so they are open. No reader goes more
than sixteen steps deep without taking a token.
-/

namespace Lox

variable {L : Likeness} {N : Nat → Nat → Prop} {us : Option (List Token)} {c c' : Cursor}

theorem Expr.Like.span {e e' : Expr} (h : e.Like L e') : L.span e.span e'.span := by
  cases h <;> exact Likeness.Site.span ‹_›

/-- The number of steps from operands of the level down to those of unary operators. -/
def Level.steps : Level → Nat
  | .or => 12
  | .and => 10
  | .equality => 8
  | .comparison => 6
  | .term => 4
  | .factor => 2

theorem Level.steps_tighter {l t : Level} (h : l.tighter? = some t) : l.steps = t.steps + 2 := by
  cases l <;> cases h <;> rfl

theorem Level.steps_of_tighter?_eq_none {l : Level} (h : l.tighter? = none) : l.steps = 2 := by
  cases l <;> first | rfl | cases h

/-- No expression begins here. -/
def Cursor.Barren (c : Cursor) : Prop := c.kind = .eof ∨ c.kind = .keyword .else

theorem Cursor.barren_of_rest (h : c.rest = []) : c.Barren := by
  rw [Barren, kind, h]
  exact .inl rfl

namespace Reader

/-! ### Where no expression begins -/

section

variable (hc : c.Barren) {n : Nat}

include hc

theorem primary_barren (hn : 1 ≤ n) : primary n c = (none, c.reportHere .expectedExpression) := by
  obtain ⟨n, rfl⟩ := Nat.exists_eq_add_of_le' hn
  rw [primary, here, ask_bind, ask_bind]
  obtain hk | hk := hc <;> rw [hk] <;> rfl

theorem unary_barren (hn : 2 ≤ n) : unary n c = (none, c.reportHere .expectedExpression) := by
  obtain ⟨n, rfl⟩ := Nat.exists_eq_add_of_le' hn
  have hp := primary_barren hc (Nat.le_add_left 1 n)
  have hb := bind_of_none (f := calls (n + 1)) (congrArg Prod.fst hp)
  rw [hp] at hb
  rw [unary, ask_bind]
  obtain hk | hk := hc <;> rw [hk] <;> exact hb

private theorem level_barren :
    (∀ l, 2 + l.steps ≤ n → level n l c = (none, c.reportHere .expectedExpression)) ∧
    ∀ l, 1 + l.steps ≤ n → operand n l c = (none, c.reportHere .expectedExpression) := by
  induction n with
  | zero => exact ⟨fun _ hn => by omega, fun _ hn => by omega⟩
  | succ n ih =>
    refine ⟨fun l hn => ?_, fun l hn => ?_⟩
    · have ho := ih.2 l (by omega)
      rw [level, bind_of_none (congrArg Prod.fst ho), ho]
    · rw [operand]
      cases ht : l.tighter? with
      | some t => exact ih.1 t (by rw [Level.steps_tighter ht] at hn; omega)
      | none => exact unary_barren hc (by rw [Level.steps_of_tighter?_eq_none ht] at hn; omega)

theorem assignment_barren (hn : 15 ≤ n) :
    assignment n c = (none, c.reportHere .expectedExpression) := by
  obtain ⟨n, rfl⟩ := Nat.exists_eq_add_of_le' hn
  have hl := (level_barren hc (n := n + 14)).1 .or (Nat.le_add_left 14 n)
  rw [assignment, bind_of_none (congrArg Prod.fst hl), hl]

end

/-! ### Expressions -/

theorem Twins.infixNode (hN : L.Numbers N) (h : c.Like L N us c') {l l' r r' : Expr}
    (hl : l.Like L l') (hr : r.Like L r') (op : InfixOp) {t t' : Span} (ht : L.span t t') :
    Twins L N us True (infixNode l op t r) c (infixNode l' op t' r') c'
      fun e e' d => e.Like L e' ∧ d.rest = c.rest := by
  refine (site h hN (hN.merge hl.span hr.span)).next fun s s' d d' hd _ hs => ?_
  cases op with
  | logical o => exact pure hd ⟨.logical hs.1 hl hr, hs.2⟩
  | binary o => exact pure hd ⟨.binary hs.1 hl ht hr, hs.2⟩

theorem Twins.assignNode (hN : L.Numbers N) (h : c.Like L N us c') {e e' v v' : Expr}
    (he : e.Like L e') (hv : v.Like L v') {t t' : Span} (ht : L.span t t') :
    Twins L N us True (assignNode e t v) c (assignNode e' t' v') c'
      fun e e' d => e.Like L e' ∧ d.rest = c.rest := by
  have hspan := hN.merge he.span hv.span
  cases he with
  | var _ hx =>
    refine (site h hN hspan).next fun s s' d d' hd _ hs => ?_
    exact pure hd ⟨.assign hs.1 hx hv, hs.2⟩
  | get _ he hx =>
    refine (site h hN hspan).next fun s s' d d' hd _ hs => ?_
    exact pure hd ⟨.set hs.1 he hx hv, hs.2⟩
  | literal | grouping | unary | binary | logical | assign | call | set | this | super =>
    refine (reportAt h .invalidAssignmentTarget ht).next fun _ _ d d' hd _ hr => ?_
    exact pure hd ⟨by constructor <;> assumption, hr⟩

end Reader

/-- Expressions that are alike and were read from the cursor `c`. -/
def Expr.LikeFrom (L : Likeness) (c : Cursor) (e e' : Expr) (d : Cursor) : Prop :=
  e.Like L e' ∧ d.rest.length < c.rest.length

namespace Reader

/-- What readers of expressions do on cursors that are alike, when the first one
has the fuel `n`. -/
structure ExpressionTwins (L : Likeness) (N : Nat → Nat → Prop) (us : Option (List Token))
    (n : Nat) : Prop where
  assignment {m c c'} : c.Like L N us c' → 16 * c.rest.length + 15 ≤ n →
    16 * c'.rest.length + 15 ≤ m →
    Twins L N us False (assignment n) c (assignment m) c' (Expr.LikeFrom L c)
  level {m c c'} (l) : c.Like L N us c' → 16 * c.rest.length + 2 + l.steps ≤ n →
    16 * c'.rest.length + 2 + l.steps ≤ m →
    Twins L N us False (level n l) c (level m l) c' (Expr.LikeFrom L c)
  moreOperands {m c c' e e'} (l) : c.Like L N us c' → e.Like L e' → 16 * c.rest.length + 1 ≤ n →
    16 * c'.rest.length + 1 ≤ m →
    Twins L N us False (moreOperands n l e) c (moreOperands m l e') c' fun e e' _ => e.Like L e'
  operand {m c c'} (l) : c.Like L N us c' → 16 * c.rest.length + 1 + l.steps ≤ n →
    16 * c'.rest.length + 1 + l.steps ≤ m →
    Twins L N us False (operand n l) c (operand m l) c' (Expr.LikeFrom L c)
  unary {m c c'} : c.Like L N us c' → 16 * c.rest.length + 2 ≤ n → 16 * c'.rest.length + 2 ≤ m →
    Twins L N us False (unary n) c (unary m) c' (Expr.LikeFrom L c)
  calls {m c c' e e'} : c.Like L N us c' → e.Like L e' → 16 * c.rest.length + 1 ≤ n →
    16 * c'.rest.length + 1 ≤ m →
    Twins L N us False (calls n e) c (calls m e') c' fun e e' _ => e.Like L e'
  arguments {m c c'} (count) : c.Like L N us c' → 16 * c.rest.length + 16 ≤ n →
  16 * c'.rest.length + 16 ≤ m →
    Twins L N us False (arguments n count) c (arguments m count) c'
      fun es es' _ => List.Forall₂ (Expr.Like L) es es'
  primary {m c c'} : c.Like L N us c' → 16 * c.rest.length + 1 ≤ n → 16 * c'.rest.length + 1 ≤ m →
    Twins L N us True (primary n) c (primary m) c' (Expr.LikeFrom L c)

/-- What follows the arguments of a call. -/
def callRest (n : Nat) (e : Expr) (es : List Expr) : Reader Expr := do
  let paren ← expect .rightParen "after arguments"
  let s ← site (e.span.merge paren)
  calls n (.call s e paren es)

/-- One argument and those that follow it, when there may be one more. -/
def argumentsRest (n count : Nat) : Reader (List Expr) := do
  let e ← assignment n
  if ← eat .comma then
    let es ← arguments n (count + 1)
    pure (e :: es)
  else
    pure [e]

/-- The literal that the next token is, if it is one. -/
def literalOf (start : Span) : Option Literal → Reader Expr
  | some v => do
    let _ ← advance
    pure (.literal (← site start) v)
  | none => do
    report .expectedExpression
    fail

/-! ### At the end -/

section

variable (hc : c.rest = []) {C : Prop}

include hc

theorem ends_eat {s : Symbol} {β : Type} {g : Bool → Reader β} (h : (g false).Ends C c) :
    (eat s >>= g).Ends C c := by
  have hs : c.isSymbol s = false := by simp [Cursor.isSymbol, Cursor.kind, hc]
  exact h.congr (by rw [bind_of_some (a := false)] <;> simp [eat, hs])

private theorem ends_assignment {n : Nat} (hn : 15 ≤ n) : (assignment n).Ends C c :=
  .of_missing (assignment_barren (Cursor.barren_of_rest hc) hn) hc

theorem ends_site {β : Type} {s : Span} {g : Site → Reader β}
    (h : ∀ d t, d.rest = [] → (g t).Ends C d) : (site s >>= g).Ends C c :=
  Ends.bind (C := False) ⟨.of_some rfl (Nat.le_refl _) rfl, hc,
    False.elim⟩ fun _ t d _ hd => h d t hd

private theorem ends_infixNode (l : Expr) (op : InfixOp) (t : Span) (r : Expr) :
    (infixNode l op t r).Ends False c := by
  refine ends_site hc fun d s hd => ?_
  cases op <;> exact ends_pure hd

private theorem ends_assignNode (e : Expr) (t : Span) (v : Expr) :
    (assignNode e t v).Ends False c := by
  cases e with
  | var | get => exact ends_site hc fun d s hd => ends_pure hd
  | literal | grouping | unary | binary | logical | assign | call | set | this | super =>
    refine Ends.bind (C := False) ⟨⟨Nat.le_refl _, ?_, nofun⟩, hc,
      False.elim⟩ fun _ _ d _ hd => ends_pure hd
    simp [change, Cursor.reportAt]

theorem ends_moreOperands (l : Level) (e : Expr) {n : Nat} (hn : 1 ≤ n) :
    (moreOperands n l e).Ends False c := by
  obtain ⟨n, rfl⟩ := Nat.exists_eq_add_of_le' hn
  have hk : l.operator? c.kind = none := by
    rw [Cursor.kind, hc]
    cases l <;> rfl
  have he : moreOperands (n + 1) l e c = (some e, c) := by
    rw [moreOperands, ask_bind, hk]
    rfl
  exact (ends_pure hc).congr he

private theorem ends_calls (e : Expr) {n : Nat} (hn : 1 ≤ n) : (calls n e).Ends False c := by
  obtain ⟨n, rfl⟩ := Nat.exists_eq_add_of_le' hn
  rw [calls]
  exact ends_eat hc (ends_eat hc (ends_pure hc))

theorem ends_arguments (count : Nat) {n : Nat} (hn : 16 ≤ n) : (arguments n count).Ends C c := by
  obtain ⟨n, rfl⟩ := Nat.exists_eq_add_of_le' hn
  have hrest : ∀ d : Cursor, d.rest = [] → (argumentsRest (n + 15) count).Ends C d := fun d hd =>
    (ends_assignment hd (Nat.le_add_left 15 n)).bind_closed
  rw [arguments]
  split
  · exact (ends_reportHere _ hc).bind fun _ _ d _ hd => hrest d hd
  · exact hrest c hc

end

namespace ExpressionTwins

variable {n n' : Nat}

theorem assignment_succ (hN : L.Numbers N) (ih : ExpressionTwins L N us n) (h : c.Like L N us c')
    (hn : 16 * c.rest.length + 15 ≤ n + 1) (hn' : 16 * c'.rest.length + 15 ≤ n' + 1) :
    Twins L N us False (Reader.assignment (n + 1)) c (Reader.assignment (n' + 1)) c'
      (Expr.LikeFrom L c) := by
  rw [Reader.assignment, Reader.assignment]
  have hlen := h.length
  refine (ih.level .or h (Nat.le_of_succ_le_succ hn) (Nat.le_of_succ_le_succ hn')).bind
    (fun _ a d hd => ends_eat hd (ends_pure hd)) fun e e' d d' hd _ he => ?_
  obtain ⟨he, hlt⟩ := he
  refine .eat hd (fun hl => ends_pure hl.2) (fun f f' hf hlt' => ?_) fun _ => .pure hd ⟨he, hlt⟩
  have hlen' := hf.length
  refine (Twins.previous hf).next fun s s' g g' hg _ hs => ?_
  obtain ⟨hs, rfl⟩ := hs
  have hlen'' := hg.length
  refine (ih.assignment hg (by omega) (by omega)).bind (fun _ v i hi => ends_assignNode hi e s v)
    fun v v' i i' hi hil hv => ?_
  obtain ⟨hv, hlt''⟩ := hv
  refine (Twins.assignNode hN hi he hv hs).opened.imp fun e e' j _ hj => ⟨hj.1, ?_⟩
  rw [hj.2]
  omega

theorem level_succ (ih : ExpressionTwins L N us n) (h : c.Like L N us c') (l : Level)
    (hn : 16 * c.rest.length + 2 + l.steps ≤ n + 1)
    (hn' : 16 * c'.rest.length + 2 + l.steps ≤ n' + 1) :
    Twins L N us False (Reader.level (n + 1) l) c (Reader.level (n' + 1) l) c'
      (Expr.LikeFrom L c) := by
  rw [Reader.level, Reader.level]
  have hlen := h.length
  refine (ih.operand l h (by omega) (by omega)).bind
    (fun _ e d hd => ends_moreOperands hd l e (by omega))
    fun e e' d d' hd _ he => ?_
  obtain ⟨he, hlt⟩ := he
  have hlen' := hd.length
  exact (ih.moreOperands l hd he (by omega) (by omega)).imp fun f f' g hg hf =>
    ⟨hf, Nat.lt_of_le_of_lt hg hlt⟩

theorem moreOperands_succ (hN : L.Numbers N) (ih : ExpressionTwins L N us n) (h : c.Like L N us c')
    (l : Level) {e e' : Expr} (he : e.Like L e') (hn : 16 * c.rest.length + 1 ≤ n + 1)
    (hn' : 16 * c'.rest.length + 1 ≤ n' + 1) :
    Twins L N us False (Reader.moreOperands (n + 1) l e) c (Reader.moreOperands (n' + 1) l e') c'
      fun e e' _ => e.Like L e' := by
  by_cases hl : c.Lost us
  · exact (ends_moreOperands hl.2 l e (Nat.le_add_left 1 n)).twins hl.1
  rw [Reader.moreOperands, Reader.moreOperands]
  have hlen := h.length
  refine .peek (fun hl => h.kind hl) (fun hl' => absurd hl' hl) fun _ => ?_
  cases ho : l.operator? c.kind with
  | none => exact .pure h he
  | some op =>
    have hc : c.rest ≠ [] := by
      intro hr
      rw [Cursor.kind, hr] at ho
      cases l <;> cases ho
    refine (Twins.advance h hc).next fun t t' d d' hd _ ht => ?_
    obtain ⟨ht, hlt⟩ := ht
    have hlen' := hd.length
    have hsteps : l.steps ≤ 12 := by cases l <;> decide
    refine (ih.operand l hd (by omega) (by omega)).bind
      (fun _ r f hf => ?_) fun r r' f f' hf hfl hr => ?_
    · exact (ends_infixNode hf e op t r).bind fun _ node g _ hg =>
        ends_moreOperands hg l node (by omega)
    have hlen'' := hf.length
    refine (Twins.infixNode hN hf he hr.1 op ht).next fun node node' g g' hg _ hnode => ?_
    have hlen''' := hg.length
    rw [hnode.2] at hlen'''
    exact ih.moreOperands l hg hnode.1 (by rw [hnode.2]; omega) (by omega)

theorem operand_succ (ih : ExpressionTwins L N us n) (h : c.Like L N us c') (l : Level)
    (hn : 16 * c.rest.length + 1 + l.steps ≤ n + 1)
    (hn' : 16 * c'.rest.length + 1 + l.steps ≤ n' + 1) :
    Twins L N us False (Reader.operand (n + 1) l) c (Reader.operand (n' + 1) l) c'
      (Expr.LikeFrom L c) := by
  rw [Reader.operand, Reader.operand]
  cases ht : l.tighter? with
  | some t =>
    rw [Level.steps_tighter ht] at hn hn'
    exact ih.level t h (by omega) (by omega)
  | none =>
    rw [Level.steps_of_tighter?_eq_none ht] at hn hn'
    exact ih.unary h (by omega) (by omega)

theorem unary_succ (hN : L.Numbers N) (ih : ExpressionTwins L N us n) (h : c.Like L N us c')
    (hn : 16 * c.rest.length + 2 ≤ n + 1) (hn' : 16 * c'.rest.length + 2 ≤ n' + 1) :
    Twins L N us False (Reader.unary (n + 1)) c (Reader.unary (n' + 1)) c' (Expr.LikeFrom L c) := by
  by_cases hl : c.Lost us
  · have he := unary_barren (Cursor.barren_of_rest hl.2) (n := n + 1) (by omega)
    exact (Ends.of_missing he hl.2).twins hl.1
  rw [Reader.unary, Reader.unary]
  have hlen := h.length
  refine .peek (fun hl => h.kind hl) (fun hl' => absurd hl' hl) fun _ => ?_
  cases ho : UnaryOp.ofToken? c.kind with
  | none =>
    refine (ih.primary h (by omega) (by omega)).next fun e e' d d' hd _ he => ?_
    have hlen' := hd.length
    have hlt := he.2
    exact (ih.calls hd he.1 (by omega) (by omega)).imp fun f f' g hg hf =>
      ⟨hf, Nat.lt_of_le_of_lt hg hlt⟩
  | some op =>
    have hc : c.rest ≠ [] := by
      intro hr
      rw [Cursor.kind, hr] at ho
      cases ho
    refine (Twins.advance h hc).next fun t t' d d' hd _ ht => ?_
    obtain ⟨ht, hlt⟩ := ht
    have hlen' := hd.length
    refine (ih.unary hd (by omega) (by omega)).bind
      (fun _ e f hf => ends_site hf fun g s hg => ends_pure hg)
      fun e e' f f' hf hfl he => ?_
    refine (Twins.site hf hN (hN.merge ht he.1.span)).next fun s s' g g' hg hgl hs => ?_
    exact .pure hg ⟨.unary hs.1 ht he.1, by omega⟩

theorem calls_succ (hN : L.Numbers N) (ih : ExpressionTwins L N us n) (h : c.Like L N us c')
    {e e' : Expr} (he : e.Like L e') (hn : 16 * c.rest.length + 1 ≤ n + 1)
    (hn' : 16 * c'.rest.length + 1 ≤ n' + 1) :
    Twins L N us False (Reader.calls (n + 1) e) c (Reader.calls (n' + 1) e') c' fun e e' _ =>
      e.Like L e' := by
  by_cases hl : c.Lost us
  · exact (ends_calls hl.2 e (Nat.le_add_left 1 n)).twins hl.1
  rw [Reader.calls, Reader.calls]
  have hlen := h.length
  refine .eat h (fun hl' => absurd hl' hl) (fun d d' hd hlt => ?_) fun _ =>
    .eat h (fun hl' => absurd hl' hl) (fun d d' hd hlt => ?_) fun _ => .pure h he
  · have hlen' := hd.length
    have hrest : ∀ es es' f f', f.Like L N us f' → f.rest.length ≤ d.rest.length →
        List.Forall₂ (Expr.Like L) es es' →
        Twins L N us False (callRest n e es) f (callRest n' e' es') f' fun e e' _ =>
          e.Like L e' := by
      intro es es' f f' hf hlt' hes
      refine (Twins.expect hf .rightParen "after arguments").next fun t t' g g' hg _ ht => ?_
      refine (Twins.site hg hN (hN.merge he.span ht.1)).next fun s s' i i' hi _ hs => ?_
      have hlen'' := hi.length
      rw [hs.2] at hlen''
      exact ih.calls hi (.call hs.1 he ht.1 hes) (by rw [hs.2]; omega) (by omega)
    refine .peek (fun hl => by
      rw [Cursor.isSymbol, Cursor.isSymbol, hd.kind hl]) (fun hl => ?_) fun hl => ?_
    · rw [Cursor.isSymbol, Cursor.kind, hl.2]
      exact (ends_arguments hl.2 0 (by omega)).bind_closed
    · split
      · exact hrest [] [] d d' hd (Nat.le_refl _) .nil
      · refine (ih.arguments 0 hd (by omega) (by omega)).bind (fun _ es f hf => ?_)
          fun es es' f f' hf hlt' hes => hrest es es' f f' hf hlt' hes
        exact Ends.bind_closed (ends_expect _ _ hf)
  · refine (Twins.name hd "property name after '.'").next fun x x' f f' hf hlt' hx => ?_
    refine (Twins.site hf hN (hN.merge he.span hx.1.span)).next fun s s' g g' hg _ hs => ?_
    have hlen' := hg.length
    have hx' := hx.2
    rw [hs.2] at hlen'
    exact ih.calls hg (.get hs.1 he hx.1) (by rw [hs.2]; omega) (by omega)

theorem arguments_succ (ih : ExpressionTwins L N us n) (h : c.Like L N us c') (count : Nat)
    (hn : 16 * c.rest.length + 16 ≤ n + 1) (hn' : 16 * c'.rest.length + 16 ≤ n' + 1) :
    Twins L N us False (Reader.arguments (n + 1) count) c (Reader.arguments (n' + 1) count) c'
      fun es es' _ => List.Forall₂ (Expr.Like L) es es' := by
  by_cases hl : c.Lost us
  · exact ((ends_arguments hl.2 count (by omega)).of_closed).twins hl.1
  have hrest : ∀ d d', d.Like L N us d' → d.rest.length ≤ c.rest.length →
      Twins L N us False (argumentsRest n count) d (argumentsRest n' count) d'
        fun es es' _ => List.Forall₂ (Expr.Like L) es es' := by
    intro d d' hd hlt
    have hlen := h.length
    have hlen' := hd.length
    refine (ih.assignment hd (by omega) (by omega)).bind
      (fun _ e f hf => ends_eat hf (ends_pure hf))
      fun e e' f f' hf _ he => ?_
    have hlt' := he.2
    refine .eat hf (fun hl => ends_pure hl.2) (fun g g' hg hlt'' => ?_) fun _ =>
      .pure hf (.cons he.1 .nil)
    have hlen'' := hg.length
    refine (ih.arguments (count + 1) hg (by omega) (by omega)).bind (fun _ es i hi => ends_pure hi)
      fun es es' i i' hi _ hes => .pure hi (.cons he.1 hes)
  rw [Reader.arguments, Reader.arguments]
  split
  · exact (Twins.reportHere h hl .tooManyArguments).next fun _ _ d d' hd hlt _ => hrest d d' hd hlt
  · exact hrest c c' h (Nat.le_refl _)

theorem primary_succ (hN : L.Numbers N) (ih : ExpressionTwins L N us n) (h : c.Like L N us c')
    (hn : 16 * c.rest.length + 1 ≤ n + 1) (hn' : 16 * c'.rest.length + 1 ≤ n' + 1) :
    Twins L N us True (Reader.primary (n + 1)) c (Reader.primary (n' + 1)) c'
      (Expr.LikeFrom L c) := by
  by_cases hl : c.Lost us
  · exact (Ends.of_missing (primary_barren (Cursor.barren_of_rest hl.2) (Nat.le_add_left 1 n))
      hl.2).twins hl.1
  have hlen := h.length
  have hspan := h.span hl
  have hrest : c.kind ≠ .eof → c.rest ≠ [] := fun hk hr => hk (by rw [Cursor.kind, hr])
  -- Every token that begins no other expression is a literal or a problem.
  have hliteral : Twins L N us True (literalOf c.span (Literal.ofToken? c.kind)) c
      (literalOf c'.span (Literal.ofToken? c.kind)) c' (Expr.LikeFrom L c) := by
    cases ho : Literal.ofToken? c.kind with
    | none => exact .fail h .expectedExpression
    | some v =>
      have hc := hrest fun hk => by rw [hk] at ho; cases ho
      refine (Twins.advance h hc).next fun _ _ d d' hd _ hlt => ?_
      refine (Twins.site hd hN hspan).next fun s s' f f' hf _ hs => ?_
      exact .pure hf ⟨.literal hs.1, by rw [hs.2]; exact hlt.2⟩
  rw [Reader.primary, Reader.primary]
  refine .look (.look ?_)
  rw [h.kind hl]
  generalize c.kind = k at hrest hliteral
  cases k with
  | number | string | eof => exact hliteral
  | identifier x =>
    refine (Twins.advance h (hrest (by simp))).next fun _ _ d d' hd _ hlt => ?_
    refine (Twins.site hd hN hspan).next fun s s' f f' hf _ hs => ?_
    exact .pure hf ⟨.var hs.1 ⟨rfl, hspan⟩, by rw [hs.2]; exact hlt.2⟩
  | keyword w =>
    cases w with
    | this =>
      refine (Twins.advance h (hrest (by simp))).next fun _ _ d d' hd _ hlt => ?_
      refine (Twins.site hd hN hspan).next fun s s' f f' hf _ hs => ?_
      exact .pure hf ⟨.this hs.1, by rw [hs.2]; exact hlt.2⟩
    | super =>
      refine (Twins.advance h (hrest (by simp))).next fun _ _ d d' hd _ hlt => ?_
      refine (Twins.expect hd .dot "after 'super'").next fun _ _ f f' hf hf' _ => ?_
      refine (Twins.name hf "superclass method name").next fun x x' g g' hg hg' hx => ?_
      refine (Twins.site hg hN (hN.merge hspan hx.1.span)).next fun s s' i i' hi _ hs => ?_
      have hlt := hlt.2
      exact .pure hi ⟨.super hs.1 hx.1, by rw [hs.2]; omega⟩
    | and | cls | «else» | «false» | «for» | «fun» | «if» | nil | or | print | «return» | «true»
    | var | «while» =>
      exact hliteral
  | symbol s =>
    cases s with
    | leftParen =>
      refine (Twins.advance h (hrest (by simp))).next fun _ _ d d' hd _ hlt => ?_
      have hlt := hlt.2
      have hlen' := hd.length
      refine (ih.assignment hd (by omega) (by omega)).bind
        (fun _ _ f hf => (ends_expect _ _ hf).bind_closed) fun e e' f f' hf _ he => ?_
      have he' := he.2
      refine (Twins.expect hf .rightParen "after expression").next fun t t' g g' hg _ ht => ?_
      have ht' := ht.2
      refine (Twins.site hg hN (hN.merge hspan ht.1)).next fun s s' i i' hi _ hs => ?_
      exact .pure hi ⟨.grouping hs.1 he.1, by rw [hs.2]; omega⟩
    | plus | minus | star | slash | bang | bangEq | eq | eqEq | less | lessEq | greater | greaterEq
    | rightParen
    | leftBrace | rightBrace | comma | dot | semicolon => exact hliteral

end ExpressionTwins

/-- Readers of expressions go together, whatever fuel they have, as long as it is
enough for the tokens. -/
theorem expressionTwins (hN : L.Numbers N) (n : Nat) : ExpressionTwins L N us n := by
  induction n with
  | zero => constructor <;> intros <;> omega
  | succ n ih =>
    have hpos : ∀ {n' : Nat}, 0 < n' →
        ∃ m, n' = m + 1 := fun h => ⟨_, (Nat.succ_pred_eq_of_pos h).symm⟩
    refine ⟨fun {n' _ _} h hn hn' => ?_, fun {n' _ _} l h hn hn' => ?_,
      fun {n' _ _ _ _} l h he hn hn' => ?_,
      fun {n' _ _} l h hn hn' => ?_, fun {n' _ _} h hn hn' =>
        ?_, fun {n' _ _ _ _} h he hn hn' => ?_,
      fun {n' _ _} count h hn hn' => ?_, fun {n' _ _} h hn hn' => ?_⟩ <;>
      obtain ⟨m, rfl⟩ : ∃ m, n' = m + 1 := hpos (by omega)
    · exact ih.assignment_succ hN h hn hn'
    · exact ih.level_succ h l hn hn'
    · exact ih.moreOperands_succ hN h l he hn hn'
    · exact ih.operand_succ h l hn hn'
    · exact ih.unary_succ hN h hn hn'
    · exact ih.calls_succ hN h he hn hn'
    · exact ih.arguments_succ h count hn hn'
    · exact ih.primary_succ hN h hn hn'

theorem Twins.expression (hN : L.Numbers N) (h : c.Like L N us c') :
    Twins L N us False expression c expression c' (Expr.LikeFrom L c) :=
  ((expressionTwins hN _).assignment h (n := expressionFuel c) (m := expressionFuel c')
    (by unfold expressionFuel; omega) (by unfold expressionFuel; omega)).congr rfl rfl

/-- Where no expression begins, one is missing. -/
theorem expression_barren (hc : c.Barren) :
    expression c = (none, c.reportHere .expectedExpression) :=
  assignment_barren hc (by unfold expressionFuel; omega)

theorem ends_expression {C : Prop} (hc : c.rest = []) : expression.Ends C c :=
  .of_missing (expression_barren (Cursor.barren_of_rest hc)) hc

end Reader

end Lox
