import Lox.Proofs.Grammar.Soundness
/-!
# Written expressions are read

The tokens of a canonical expression are read as an expression that is like it, with no error, if
what comes after them does not go on with it. Operators of one level are read in a loop, so what is
shown of an expression at the left end of such a chain is how far the loop has come when it has been
read; the loop goes on or stops there as the next token says.
-/

namespace Lox

private theorem InfixOp.like_node (op : InfixOp) {s s' : Site} {l l' : Expr} {t t' : Span}
    {r r' : Expr} (hl : l.Like .any l') (hr : r.Like .any r') :
    (op.node s l t r).Like .any (op.node s' l' t' r') := by
  cases op with
  | logical o => exact .logical (Likeness.any_site _ _) hl hr
  | binary o => exact .binary (Likeness.any_site _ _) hl trivial hr

/-! ### Where an expression ends -/

/-- How tightly a token binds that goes on with an expression. -/
def TokenKind.binding? : TokenKind → Option Nat
  | .symbol .leftParen | .symbol .dot => some 0
  | .symbol .star | .symbol .slash => some 2
  | .symbol .plus | .symbol .minus => some 3
  | .symbol .greater | .symbol .greaterEq | .symbol .less | .symbol .lessEq => some 4
  | .symbol .eqEq | .symbol .bangEq => some 5
  | .keyword .and => some 6
  | .keyword .or => some 7
  | .symbol .eq => some 8
  | _ => none

@[simp] theorem InfixOp.binding?_token (op : InfixOp) : op.token.binding? = some op.precedence := by
  cases op with
  | logical o => cases o <;> rfl
  | binary o => cases o <;> rfl

/-- The word does not go on with an expression that binds at least as tightly as `p`. -/
def Stops (p : Nat) (w : List TokenKind) : Prop := ∀ q ∈ (w.headD .eof).binding?, p < q

theorem Stops.mono {p q : Nat} {w : List TokenKind} (h : Stops p w) (hq : q ≤ p) : Stops q w :=
  fun b hb => Nat.lt_of_le_of_lt hq (h b hb)

theorem stops_cons {p : Nat} {t : TokenKind} {w : List TokenKind} (h : ∀ q ∈ t.binding?, p < q) :
    Stops p (t :: w) := h

/-- No expression goes on with a token that is not an operator. -/
theorem stops_other {p : Nat} {t : TokenKind} {w : List TokenKind} (h : t.binding? = none) :
    Stops p (t :: w) := by
  refine stops_cons fun q hq => ?_
  rw [h] at hq
  cases hq

/-- An operator stops what binds more tightly. -/
theorem stops_operator {p : Nat} {op : InfixOp} {w : List TokenKind} (h : p < op.precedence) :
    Stops p (op.token :: w) := by
  intro q hq
  rw [List.headD_cons, op.binding?_token] at hq
  cases hq
  exact h

theorem Cursor.kind_eq (c : Cursor) : c.kind = c.kinds.headD .eof := by
  unfold kind kinds
  cases c.rest <;> rfl

private theorem Level.operator?_of_stops {l : Level} {c : Cursor} (h : Stops l.precedence c.kinds) :
    l.operator? c.kind = none := by
  cases hop : l.operator? c.kind with
  | none => rfl
  | some op =>
    obtain ⟨rfl, hk⟩ := operator?_eq_some.mp hop
    rw [c.kind_eq] at hk
    exact absurd (h op.precedence (by rw [hk, op.binding?_token]; rfl)) (Nat.lt_irrefl _)

theorem Cursor.kind_ne_of_stops {p q : Nat} {c : Cursor} {t : TokenKind} (h : Stops p c.kinds)
    (ht : t.binding? = some q) (hq : q ≤ p) : c.kind ≠ t := by
  intro hk
  rw [c.kind_eq] at hk
  exact absurd (h q (by rw [hk, ht]; rfl)) (Nat.not_lt.mpr hq)

/-! ### What readers come to -/

namespace Reader

variable {α β : Type} {r s : Reader α} {f : α → Reader β} {c : Cursor} {k k' : List TokenKind}
  {Q : α → Prop} {P : Reader α → Cursor → Prop} {R : Reader β → Cursor → Prop}

/-- From `c` on `r` comes to do what some reader with `P` does further on, and no error was
found until then. -/
def ComesTo (r : Reader α) (c : Cursor) (P : Reader α → Cursor → Prop) : Prop :=
  ∃ s d, r c = s d ∧ d.errors = c.errors ∧ P s d

/-- From `c` on `r` reads something with `Q` without an error, and leaves the tokens `k`. -/
def Yields (r : Reader α) (c : Cursor) (k : List TokenKind) (Q : α → Prop) : Prop :=
  r.ComesTo c fun s d => ∃ a, s = pure a ∧ d.kinds = k ∧ Q a

theorem comesTo_self (h : P r c) : r.ComesTo c P := ⟨r, c, rfl, rfl, h⟩

theorem ComesTo.congr (h : s.ComesTo c P) (heq : r c = s c) : r.ComesTo c P := by
  obtain ⟨t, d, ht, hclean, hp⟩ := h
  exact ⟨t, d, heq.trans ht, hclean, hp⟩

theorem ComesTo.trans {P' : Reader α → Cursor → Prop} (h : r.ComesTo c P)
    (hp : ∀ s d, P s d → s.ComesTo d P') : r.ComesTo c P' := by
  obtain ⟨s, d, hs, hclean, hps⟩ := h
  obtain ⟨t, e, ht, hclean', hpt⟩ := hp s d hps
  exact ⟨t, e, hs.trans ht, hclean'.trans hclean, hpt⟩

theorem yields_pure {a : α} (hc : c.kinds = k) (ha : Q a) : (pure a : Reader α).Yields c k Q :=
  comesTo_self ⟨a, rfl, hc, ha⟩

theorem yields_iff : r.Yields c k Q ↔ ∃ a d, r.Reads c a d ∧ d.kinds = k ∧ Q a := by
  constructor
  · rintro ⟨_, d, heq, hclean, a, rfl, hd, ha⟩
    exact ⟨a, d, ⟨heq, hclean⟩, hd, ha⟩
  · rintro ⟨a, d, ⟨heq, hclean⟩, hd, ha⟩
    exact ⟨pure a, d, heq, hclean, a, rfl, hd, ha⟩

/-- One piece after another, which finds the errors that the first one found. -/
theorem Yields.step (h : r.Yields c k Q)
    (hf : ∀ a d, d.kinds = k → d.errors = c.errors → Q a → (f a).ComesTo d R) :
    (r >>= f).ComesTo c R := by
  obtain ⟨a, d, ⟨heq, hclean⟩, hd, ha⟩ := yields_iff.mp h
  obtain ⟨s, e, hs, hclean', hr⟩ := hf a d hd hclean ha
  refine ⟨s, e, ?_, hclean'.trans hclean, hr⟩
  rw [bind_of_some (by rw [heq]), heq]
  exact hs

theorem Yields.bind (h : r.Yields c k Q) (hf : ∀ a d, d.kinds = k → Q a → (f a).ComesTo d R) :
    (r >>= f).ComesTo c R := h.step fun a d hd _ => hf a d hd

theorem Yields.map {g : α → β} {Q' : β → Prop} (h : r.Yields c k Q) (hq : ∀ a, Q a → Q' (g a)) :
    (g <$> r).Yields c k Q' :=
  h.bind fun _ _ hd ha => yields_pure hd (hq _ ha)

theorem yields_advance {t : TokenKind} (hc : c.kinds = t :: k) : advance.Yields c k fun _ => True :=
  yields_iff.mpr ⟨_, _, reads_advance.mpr ⟨rfl, rfl⟩, Cursor.kinds_advance hc, trivial⟩

theorem yields_expect {s : Symbol} (place : String) (hc : c.kinds = .symbol s :: k) :
    (expect s place).Yields c k fun _ => True :=
  yields_iff.mpr ⟨_, _, reads_expect.mpr ⟨Cursor.kind_of_kinds hc, rfl, rfl⟩,
    Cursor.kinds_advance hc, trivial⟩

theorem yields_name {x : Ident} (role : String) (hc : c.kinds = x.token :: k) :
    (name role).Yields c k (Likeness.any.Ident x) := by
  have hk : c.kind = (⟨x.name, c.span⟩ : Ident).token := Cursor.kind_of_kinds hc
  exact yields_iff.mpr ⟨_, _, reads_name.mpr ⟨hk, rfl, rfl⟩, Cursor.kinds_advance hc, rfl, trivial⟩

theorem yields_site (t : Span) (hc : c.kinds = k) : (site t).Yields c k fun _ => True :=
  yields_iff.mpr ⟨_, _, reads_site.mpr ⟨rfl, rfl⟩, hc, trivial⟩

theorem yields_previous (hc : c.kinds = k) : previous.Yields c k fun _ => True :=
  yields_iff.mpr ⟨_, c, ⟨rfl, rfl⟩, hc, trivial⟩

section

variable {t : Symbol} {w : Keyword} {yes no : Reader α}

/-- The token that is looked for comes next and is taken. -/
theorem comesTo_take {r : Reader Bool} (hr : r c = (some true, c.advance))
    (h : yes.ComesTo c.advance P) : (do if ← r then yes else no).ComesTo c P := by
  obtain ⟨s, e, hs, hclean, hp⟩ := h
  refine ⟨s, e, ?_, hclean.trans (errors_advance c), hp⟩
  rw [bind_of_some (a := true)] <;> simp [hr, hs]

/-- Something else comes next. -/
theorem comesTo_not_take {r : Reader Bool} (hr : r c = (some false, c)) (h : no.ComesTo c P) :
    (do if ← r then yes else no).ComesTo c P := by
  refine h.congr ?_
  rw [bind_of_some (a := false)] <;> simp [hr]

theorem comesTo_eat (hc : c.kinds = .symbol t :: k)
    (h : ∀ d : Cursor, d.kinds = k → yes.ComesTo d P) :
    (do if ← eat t then yes else no).ComesTo c P :=
  comesTo_take (if_pos (Cursor.isSymbol_iff.mpr (Cursor.kind_of_kinds hc)))
    (h _ (Cursor.kinds_advance hc))

theorem comesTo_not_eat (hc : c.kind ≠ .symbol t) (h : no.ComesTo c P) :
    (do if ← eat t then yes else no).ComesTo c P :=
  comesTo_not_take (if_neg fun hk => hc (Cursor.isSymbol_iff.mp hk)) h

theorem comesTo_eatKeyword (hc : c.kinds = .keyword w :: k)
    (h : ∀ d : Cursor, d.kinds = k → d.errors = c.errors → yes.ComesTo d P) :
    (do if ← eatKeyword w then yes else no).ComesTo c P :=
  comesTo_take (if_pos (Cursor.isKeyword_iff.mpr (Cursor.kind_of_kinds hc)))
    (h _ (Cursor.kinds_advance hc) (errors_advance c))

theorem comesTo_not_eatKeyword (hc : c.kind ≠ .keyword w) (h : no.ComesTo c P) :
    (do if ← eatKeyword w then yes else no).ComesTo c P :=
  comesTo_not_take (if_neg fun hk => hc (Cursor.isKeyword_iff.mp hk)) h

theorem comesTo_isSymbol (hc : c.kind = .symbol t) (h : yes.ComesTo c P) :
    (do if ← isSymbol t then yes else no).ComesTo c P := by
  refine h.congr ?_
  rw [isSymbol, ask_bind, if_pos (Cursor.isSymbol_iff.mpr hc)]

theorem comesTo_not_isSymbol (hc : c.kind ≠ .symbol t) (h : no.ComesTo c P) :
    (do if ← isSymbol t then yes else no).ComesTo c P := by
  refine h.congr ?_
  rw [isSymbol, ask_bind, if_neg fun hk => hc (Cursor.isSymbol_iff.mp hk)]

end

/-! ### Loops of operators and of calls -/

variable {n : Nat} {e : Expr}

/-- The reader `s` goes on after something like `e`, with enough fuel, and `k` is left. -/
def After (s : Nat → Expr → Reader Expr) (e : Expr) (k : List TokenKind) (r : Reader Expr)
    (d : Cursor) : Prop :=
  ∃ n e', r = s n e' ∧ e.Like .any e' ∧ d.kinds = k ∧ 16 * k.length + 1 ≤ n

private theorem yields_moreOperands {l : Level} (hc : c.kinds = k) (hk : Stops l.precedence k)
    (hn : 1 ≤ n) {e' : Expr} (he : e.Like .any e') :
    (moreOperands n l e').Yields c k (e.Like .any) := by
  obtain ⟨n, rfl⟩ := Nat.exists_eq_add_of_le' hn
  refine ComesTo.congr (yields_pure hc he) ?_
  rw [moreOperands, ask_bind, Level.operator?_of_stops (hc ▸ hk)]

private theorem yields_calls (hc : c.kinds = k) (hk : Stops 0 k) (hn : 1 ≤ n) {e' : Expr}
    (he : e.Like .any e') : (calls n e').Yields c k (e.Like .any) := by
  obtain ⟨n, rfl⟩ := Nat.exists_eq_add_of_le' hn
  rw [calls]
  exact comesTo_not_eat (Cursor.kind_ne_of_stops (hc ▸ hk) rfl (Nat.le_refl 0))
    (comesTo_not_eat (Cursor.kind_ne_of_stops (hc ▸ hk) rfl (Nat.le_refl 0)) (yields_pure hc he))

private theorem yields_infixNode (l : Expr) (op : InfixOp) (t : Span) (r : Expr)
    (hc : c.kinds = k) : (infixNode l op t r).Yields c k fun e => ∃ s, e = op.node s l t r := by
  cases op with
  | logical o | binary o => exact (yields_site _ hc).bind fun s d hd _ => yields_pure hd ⟨s, rfl⟩

end Reader

namespace Expr

open Reader (ComesTo Yields After)

/-- The tokens of an expression are read as operands of the level, up to where the loop of the level
goes on. More operands may follow, so this is what a left operand needs. -/
def ReadAt (e : Expr) (l : Level) : Prop :=
  ∀ ⦃n c k⦄, Cursor.kinds c = e.tokens ++ k → Stops (l.precedence - 1) k →
    16 * c.kinds.length + 2 + l.steps ≤ n →
    (Reader.level n l).ComesTo c (After (Reader.moreOperands · l) e k)

/-- How the tokens of an expression are read. -/
structure Readable (e : Expr) : Prop where
  assignment {n c k} : Cursor.kinds c = e.tokens ++ k → Stops 8 k → 16 * c.kinds.length + 15 ≤ n →
    (Reader.assignment n).Yields c k (e.Like .any)
  level {l : Level} : e.precedence ≤ l.precedence → e.ReadAt l
  unary {n c k} : e.precedence ≤ 1 → Cursor.kinds c = e.tokens ++ k → Stops 0 k →
    16 * c.kinds.length + 2 ≤ n → (Reader.unary n).Yields c k (e.Like .any)
  calls {n c k} : e.precedence = 0 → Cursor.kinds c = e.tokens ++ k → 16 * c.kinds.length + 2 ≤ n →
    (Reader.unary n).ComesTo c (After Reader.calls e k)

variable {e : Expr} {l m : Level} {n : Nat} {c : Cursor} {k : List TokenKind}

/-- The loop of the level stops after the expression. -/
theorem ReadAt.yields (h : e.ReadAt l) (hc : c.kinds = e.tokens ++ k) (hk : Stops l.precedence k)
    (hn : 16 * c.kinds.length + 2 + l.steps ≤ n) : (Reader.level n l).Yields c k (e.Like .any) :=
  (h hc (hk.mono (Nat.sub_le _ _)) hn).trans fun _ _ ⟨_, _, hr, he, hd, hn⟩ =>
    hr ▸ Reader.yields_moreOperands hd hk (by omega) he

/-- An operand of a level. -/
theorem readAt_of_operand
    (h : ∀ ⦃n c k⦄, Cursor.kinds c = e.tokens ++ k → Stops (l.precedence - 1) k →
      16 * c.kinds.length + 1 + l.steps ≤ n → (Reader.operand n l).Yields c k (e.Like .any)) :
    e.ReadAt l := by
  intro n c k hc hk hn
  obtain ⟨n, rfl⟩ := Nat.exists_eq_add_of_le' (show 1 ≤ n by omega)
  rw [Reader.level]
  refine (h hc hk (by omega)).bind fun e' d hd he => Reader.comesTo_self ⟨n, e', rfl, he, hd, ?_⟩
  rw [hc, List.length_append] at hn
  omega

theorem readAt_factor
    (h : ∀ ⦃n c k⦄, Cursor.kinds c = e.tokens ++ k → Stops 0 k → 16 * c.kinds.length + 2 ≤ n →
      (Reader.unary n).Yields c k (e.Like .any)) : e.ReadAt .factor := by
  refine readAt_of_operand fun n c k hc hk hn => ?_
  obtain ⟨n, rfl⟩ := Nat.exists_eq_add_of_le' (show 1 ≤ n by omega)
  have hsteps : Level.factor.steps = 2 := rfl
  exact h hc (hk.mono (Nat.zero_le _)) (by omega)

/-- What is read at a level is read at each looser level. -/
theorem ReadAt.looser (h : e.ReadAt l) (hl : l.precedence ≤ m.precedence) : e.ReadAt m := by
  induction hp : m.precedence generalizing m with
  | zero => exact absurd m.two_le_precedence (by omega)
  | succ p ih =>
    obtain heq | hlt := Nat.eq_or_lt_of_le hl
    · exact Level.eq_of_precedence_eq heq ▸ h
    · obtain rfl | ⟨t, ht, -, htp⟩ := m.operandRule_eq
      · exact absurd l.two_le_precedence (Nat.not_le_of_lt hlt)
      · have hread : e.ReadAt t := ih (by omega) (by omega)
        refine readAt_of_operand fun n c k hc hk hn => ?_
        obtain ⟨n, rfl⟩ := Nat.exists_eq_add_of_le' (show 1 ≤ n by omega)
        rw [Level.steps_tighter ht] at hn
        rw [Reader.operand, ht]
        exact hread.yields hc (hk.mono (by omega)) (by omega)

/-- An expression of the loosest level with no assignment after it. -/
theorem ReadAt.assignment (h : e.ReadAt .or) (hc : c.kinds = e.tokens ++ k) (hk : Stops 8 k)
    (hn : 16 * c.kinds.length + 15 ≤ n) : (Reader.assignment n).Yields c k (e.Like .any) := by
  obtain ⟨n, rfl⟩ := Nat.exists_eq_add_of_le' (show 1 ≤ n by omega)
  have hsteps : Level.or.steps = 12 := rfl
  rw [Reader.assignment]
  refine (h.yields hc (hk.mono (by decide)) (by omega)).bind fun e' d hd he => ?_
  exact Reader.comesTo_not_eat (Cursor.kind_ne_of_stops (hd ▸ hk) rfl (Nat.le_refl 8))
    (Reader.yields_pure hd he)

namespace Readable

private theorem of_readAt (hp : e.precedence = l.precedence) (h : e.ReadAt l) : e.Readable := by
  have hl := l.two_le_precedence
  exact ⟨(h.looser (m := .or) l.precedence_le).assignment, fun hm => h.looser (hp ▸ hm), by
    omega, by omega⟩

theorem of_assignment (hp : e.precedence = 8)
    (h : ∀ ⦃n c k⦄, Cursor.kinds c = e.tokens ++ k → Stops 8 k → 16 * c.kinds.length + 15 ≤ n →
      (Reader.assignment n).Yields c k (e.Like .any)) : e.Readable :=
  ⟨@h, fun {l} hl => absurd l.precedence_le (by omega), by omega, by omega⟩

theorem of_unary
    (h : ∀ ⦃n c k⦄, Cursor.kinds c = e.tokens ++ k → Stops 0 k → 16 * c.kinds.length + 2 ≤ n →
      (Reader.unary n).Yields c k (e.Like .any)) (hp : e.precedence ≠ 0) : e.Readable := by
  have hfactor := readAt_factor h
  exact ⟨(hfactor.looser (by decide)).assignment, fun {l} _ => hfactor.looser l.two_le_precedence,
    fun _ => @h _ _ _, fun h0 => absurd h0 hp⟩

/-- What calls may follow. -/
theorem of_calls
    (h : ∀ ⦃n c k⦄, Cursor.kinds c = e.tokens ++ k → 16 * c.kinds.length + 2 ≤ n →
      (Reader.unary n).ComesTo c (After Reader.calls e k)) : e.Readable := by
  have hunary : ∀ ⦃n c k⦄, Cursor.kinds c = e.tokens ++ k → Stops 0 k →
      16 * c.kinds.length + 2 ≤ n →
      (Reader.unary n).Yields c k (e.Like .any) := fun n c k hc hk hn =>
    (h hc hn).trans fun _ _ ⟨_, _, hr, he, hd, hn⟩ => hr ▸ Reader.yields_calls hd hk (by omega) he
  have hfactor := readAt_factor hunary
  exact ⟨(hfactor.looser (by decide)).assignment, fun {l} _ => hfactor.looser l.two_le_precedence,
    fun _ => @hunary _ _ _, fun _ => @h _ _ _⟩

/-- What begins with no unary operator and takes its last token itself. -/
theorem of_primary
    (h : ∀ ⦃n c k⦄, Cursor.kinds c = e.tokens ++ k → 16 * c.kinds.length + 1 ≤ n →
      UnaryOp.ofToken? c.kind = none ∧ (Reader.primary n).Yields c k (e.Like .any)) :
    e.Readable := by
  refine of_calls fun n c k hc hn => ?_
  obtain ⟨n, rfl⟩ := Nat.exists_eq_add_of_le' (show 1 ≤ n by omega)
  obtain ⟨hk, he⟩ := h hc (show _ ≤ n by omega)
  have hcalls : (Reader.primary n >>= Reader.calls n).ComesTo c (After Reader.calls e k) := by
    refine he.bind fun e' d hd he => Reader.comesTo_self ⟨n, e', rfl, he, hd, ?_⟩
    rw [hc, List.length_append] at hn
    omega
  refine hcalls.congr ?_
  rw [Reader.unary, Reader.ask_bind, hk]

end Readable

/-! ### The first token of an expression -/

end Expr

/-- The tokens that expressions begin with. -/
def TokenKind.beginsExpression : TokenKind → Bool
  | .keyword w => w = .true || w = .false || w = .nil || w = .this || w = .super
  | .symbol s => s = .leftParen || s = .bang || s = .minus
  | .identifier _ | .number _ | .string _ => true
  | .eof => false

theorem Expr.exists_tokens_eq_cons :
    (e : Expr) → ∃ t w, e.tokens = t :: w ∧ t.beginsExpression = true
  | .literal _ v => ⟨v.token, [], rfl, by
    cases v with
    | bool b => cases b <;> rfl
    | nil | number | string => rfl⟩
  | .grouping _ _ => ⟨_, _, rfl, rfl⟩
  | .unary _ op _ _ => ⟨op.token, _, rfl, by cases op <;> rfl⟩
  | .binary _ l _ _ _ | .logical _ l _ _ | .call _ l _ _ | .get _ l _ | .set _ l _ _ => by
    obtain ⟨t, w, hw, ht⟩ := l.exists_tokens_eq_cons
    exact ⟨t, _, by rw [tokens, hw]; rfl, ht⟩
  | .var _ _ | .assign _ _ _ | .this _ | .super _ _ => ⟨_, _, rfl, rfl⟩

theorem Expr.beginsExpression_kind {e : Expr} {c : Cursor} {k : List TokenKind}
    (hc : c.kinds = e.tokens ++ k) : c.kind.beginsExpression = true := by
  obtain ⟨t, w, hw, ht⟩ := e.exists_tokens_eq_cons
  rw [hw] at hc
  rwa [Cursor.kind_of_kinds hc]

theorem Expr.kind_ne {e : Expr} {c : Cursor} {k : List TokenKind} (hc : c.kinds = e.tokens ++ k)
    {t : TokenKind} (ht : t.beginsExpression = false) : c.kind ≠ t := by
  rintro rfl
  rw [beginsExpression_kind hc] at ht
  cases ht

/-! ### Every canonical expression is read -/

namespace Reader

variable {n : Nat} {c : Cursor} {k : List TokenKind}

private theorem yields_arguments {es : List Expr} (hes : ∀ e ∈ es, e.Readable) (hne : es ≠ [])
    {count : Nat} (hlen : count + es.length ≤ maxArity)
    (hc : c.kinds = separated (Expr.tokensAll es) ++ .symbol .rightParen :: k)
    (hn : 16 * c.kinds.length + 16 ≤ n) :
    (arguments n count).Yields c (.symbol .rightParen :: k) (List.Forall₂ (Expr.Like .any) es) := by
  induction es generalizing n c count with
  | nil => exact absurd rfl hne
  | cons e es ih =>
    obtain ⟨n, rfl⟩ := Nat.exists_eq_add_of_le' (show 1 ≤ n by omega)
    have hcount : ¬ maxArity ≤ count := by
      rw [List.length_cons] at hlen
      omega
    rw [arguments, if_neg hcount]
    have he := hes e List.mem_cons_self
    cases es with
    | nil =>
      have hc : c.kinds = e.tokens ++ .symbol .rightParen :: k := by
        simpa [Expr.tokensAll, separated] using hc
      refine (he.assignment hc (stops_other rfl) (by omega)).bind fun e' d hd he => ?_
      exact comesTo_not_eat (by rw [Cursor.kind_of_kinds hd]; simp) (yields_pure hd (.cons he .nil))
    | cons f es =>
      have hc : c.kinds = e.tokens ++
          .symbol .comma :: (separated (Expr.tokensAll (f :: es)) ++ .symbol .rightParen :: k) := by
        rw [hc, Expr.tokensAll, separated_cons_of_ne_nil _ (by simp [Expr.tokensAll])]
        simp
      refine (he.assignment hc (stops_other rfl) (by omega)).bind fun e' d hd he =>
        comesTo_eat hd fun d' hd' => ?_
      have hfuel := congrArg List.length hc
      rw [List.length_append, List.length_cons, ← hd'] at hfuel
      refine (ih (fun e he => hes e (List.mem_cons_of_mem _ he)) (List.cons_ne_nil _ _) ?_ hd'
        (by omega)).bind
        fun es' f' hf' hes' => yields_pure hf' (.cons he hes')
      simp only [List.length_cons] at hlen ⊢
      omega

end Reader

namespace Expr.Readable

open Reader (yields_advance yields_site yields_pure yields_expect yields_name comesTo_eat
  comesTo_not_eat
  comesTo_self comesTo_isSymbol comesTo_not_isSymbol After)

variable {c : Cursor} {k : List TokenKind}

theorem literal (s : Site) (v : Literal) : (Expr.literal s v).Readable := by
  refine of_primary fun n c k hc hn => ?_
  obtain ⟨n, rfl⟩ := Nat.exists_eq_add_of_le' (show 1 ≤ n by omega)
  have hk : c.kind = v.token := Cursor.kind_of_kinds hc
  have hrest : (Reader.literalOf c.span (some v)).Yields c k ((Expr.literal s v).Like .any) :=
    (yields_advance hc).bind fun _ d hd _ => (yields_site _ hd).bind fun _ d hd _ =>
      yields_pure hd (.literal (Likeness.any_site _ _))
  refine ⟨?_, hrest.congr ?_⟩
  · rw [hk]
    cases v with
    | bool b => cases b <;> rfl
    | nil | number | string => rfl
  · rw [Reader.primary, Reader.here, Reader.ask_bind, Reader.ask_bind, hk]
    cases v with
    | bool b => cases b <;> rfl
    | nil | number | string => rfl

theorem var (s : Site) (x : Ident) : (Expr.var s x).Readable := by
  refine of_primary fun n c k hc hn => ?_
  obtain ⟨n, rfl⟩ := Nat.exists_eq_add_of_le' (show 1 ≤ n by omega)
  have hk : c.kind = .identifier x.name := Cursor.kind_of_kinds hc
  have hrest : (do
      let _ ← Reader.advance
      pure (.var (← Reader.site c.span) ⟨x.name, c.span⟩) :
        Reader Expr).Yields c k ((Expr.var s x).Like .any) :=
    (yields_advance hc).bind fun _ d hd _ => (yields_site _ hd).bind fun _ d hd _ =>
      yields_pure hd (.var (Likeness.any_site _ _) ⟨rfl, trivial⟩)
  refine ⟨by rw [hk]; rfl, hrest.congr ?_⟩
  rw [Reader.primary, Reader.here, Reader.ask_bind, Reader.ask_bind, hk]

theorem this (s : Site) : (Expr.this s).Readable := by
  refine of_primary fun n c k hc hn => ?_
  obtain ⟨n, rfl⟩ := Nat.exists_eq_add_of_le' (show 1 ≤ n by omega)
  have hk : c.kind = .keyword .this := Cursor.kind_of_kinds hc
  have hrest : (do
      let _ ← Reader.advance
      pure (.this (← Reader.site c.span)) : Reader Expr).Yields c k ((Expr.this s).Like .any) :=
    (yields_advance hc).bind fun _ d hd _ => (yields_site _ hd).bind fun _ d hd _ =>
      yields_pure hd (.this (Likeness.any_site _ _))
  refine ⟨by rw [hk]; rfl, hrest.congr ?_⟩
  rw [Reader.primary, Reader.here, Reader.ask_bind, Reader.ask_bind, hk]

theorem super (s : Site) (x : Ident) : (Expr.super s x).Readable := by
  refine of_primary fun n c k hc hn => ?_
  obtain ⟨n, rfl⟩ := Nat.exists_eq_add_of_le' (show 1 ≤ n by omega)
  have hk : c.kind = .keyword .super := Cursor.kind_of_kinds hc
  have hrest : (do
      let _ ← Reader.advance
      let _ ← Reader.expect .dot "after 'super'"
      let x ← Reader.name "superclass method name"
      pure (.super (← Reader.site (c.span.merge x.span)) x) : Reader Expr).Yields c k
        ((Expr.super s x).Like .any) :=
    (yields_advance hc).bind fun _ d hd _ => (yields_expect _ hd).bind fun _ d hd _ =>
      (yields_name _ hd).bind fun y d hd hy => (yields_site _ hd).bind fun _ d hd _ =>
        yields_pure hd (.super (Likeness.any_site _ _) hy)
  refine ⟨by rw [hk]; rfl, hrest.congr ?_⟩
  rw [Reader.primary, Reader.here, Reader.ask_bind, Reader.ask_bind, hk]

theorem grouping (s : Site) {e : Expr} (he : e.Readable) : (Expr.grouping s e).Readable := by
  refine of_primary fun n c k hc hn => ?_
  obtain ⟨n, rfl⟩ := Nat.exists_eq_add_of_le' (show 1 ≤ n by omega)
  have hc : c.kinds = .symbol .leftParen :: (e.tokens ++ .symbol .rightParen :: k) := by
    rw [hc]
    simp [tokens]
  have hk : c.kind = .symbol .leftParen := Cursor.kind_of_kinds hc
  have hlen := congrArg List.length hc
  rw [List.length_cons] at hlen
  have hrest : (do
      let _ ← Reader.advance
      let e ← Reader.assignment n
      let paren ← Reader.expect .rightParen "after expression"
      pure (.grouping (← Reader.site (c.span.merge paren)) e) : Reader Expr).Yields c k
        ((Expr.grouping s e).Like .any) := by
    refine (yields_advance hc).bind fun _ d hd _ => ?_
    refine (he.assignment hd (stops_other rfl) (by rw [hd]; omega)).bind fun e' d hd he' => ?_
    exact (yields_expect _ hd).bind fun _ d hd _ => (yields_site _ hd).bind fun _ d hd _ =>
      yields_pure hd (.grouping (Likeness.any_site _ _) he')
  refine ⟨by rw [hk]; rfl, hrest.congr ?_⟩
  rw [Reader.primary, Reader.here, Reader.ask_bind, Reader.ask_bind, hk]

private theorem unaryOp (s : Site) (op : UnaryOp) (t : Span) {e : Expr} (he : e.Readable)
    (hp : e.precedence ≤ 1) : (Expr.unary s op t e).Readable := by
  refine of_unary (fun n c k hc hstop hn => ?_) (by simp [precedence])
  obtain ⟨n, rfl⟩ := Nat.exists_eq_add_of_le' (show 1 ≤ n by omega)
  have hc : c.kinds = op.token :: (e.tokens ++ k) := hc
  have hlen := congrArg List.length hc
  rw [List.length_cons] at hlen
  have hk : UnaryOp.ofToken? c.kind = some op :=
    UnaryOp.ofToken?_eq_some.mpr (Cursor.kind_of_kinds hc)
  have hrest : (do
      let opSpan ← Reader.advance
      let e ← Reader.unary n
      let s ← Reader.site (opSpan.merge e.span)
      pure (.unary s op opSpan e) : Reader Expr).Yields c k ((Expr.unary s op t e).Like .any) := by
    refine (yields_advance hc).bind fun _ d hd _ => ?_
    refine (he.unary hp hd hstop (by rw [hd]; omega)).bind fun e' d hd he' => ?_
    exact (yields_site _ hd).bind fun _ d hd _ =>
      yields_pure hd (.unary (Likeness.any_site _ _) trivial he')
  refine hrest.congr ?_
  rw [Reader.unary, Reader.ask_bind, hk]

theorem call (s : Site) {f : Expr} (t : Span) {es : List Expr} (hf : f.Readable)
    (hp : f.precedence = 0) (hes : ∀ e ∈ es, e.Readable) (hlen : es.length ≤ maxArity) :
    (Expr.call s f t es).Readable := by
  refine of_calls fun n c k hc hn => ?_
  have hc : c.kinds = f.tokens ++
      .symbol .leftParen :: (separated (Expr.tokensAll es) ++ .symbol .rightParen :: k) := by
    rw [hc]
    simp [tokens]
  refine (hf.calls hp hc hn).trans fun r d ⟨m, f', hr, hf', hd, hm⟩ => ?_
  subst hr
  obtain ⟨m, rfl⟩ := Nat.exists_eq_add_of_le' (show 1 ≤ m by omega)
  rw [List.length_cons, List.length_append, List.length_cons] at hm
  have hrest : ∀ (es' : List Expr) (d : Cursor), d.kinds = .symbol .rightParen :: k →
      List.Forall₂ (Expr.Like .any) es es' →
      (Reader.callRest m f' es').ComesTo d (After Reader.calls (.call s f t es) k) :=
        fun es' d hd hes' =>
    (yields_expect _ hd).bind fun _ d hd _ => (yields_site _ hd).bind fun _ d hd _ =>
      comesTo_self ⟨m, _, rfl, .call (Likeness.any_site _ _) hf' trivial hes', hd, by omega⟩
  rw [Reader.calls]
  refine comesTo_eat hd fun d hd => ?_
  cases es with
  | nil => exact comesTo_isSymbol (Cursor.kind_of_kinds hd) (hrest [] d hd .nil)
  | cons e es =>
    have hfirst := hd
    rw [Expr.tokensAll, separated_cons, List.append_assoc] at hfirst
    refine comesTo_not_isSymbol (kind_ne hfirst rfl) ?_
    refine (Reader.yields_arguments hes (List.cons_ne_nil _ _) (by omega) hd ?_).bind
      fun es' d hd hes' =>
      hrest es' d hd hes'
    rw [hd, List.length_append, List.length_cons]
    omega

theorem get (s : Site) {e : Expr} (x : Ident) (he : e.Readable) (hp : e.precedence = 0) :
    (Expr.get s e x).Readable := by
  refine of_calls fun n c k hc hn => ?_
  have hc : c.kinds = e.tokens ++ .symbol .dot :: x.token :: k := by
    rw [hc]
    simp [tokens]
  refine (he.calls hp hc hn).trans fun r d ⟨m, e', hr, he', hd, hm⟩ => ?_
  subst hr
  obtain ⟨m, rfl⟩ := Nat.exists_eq_add_of_le' (show 1 ≤ m by omega)
  rw [List.length_cons, List.length_cons] at hm
  rw [Reader.calls]
  refine comesTo_not_eat (by rw [Cursor.kind_of_kinds hd]; simp) (comesTo_eat hd fun d hd => ?_)
  exact (yields_name _ hd).bind fun y d hd hy => (yields_site _ hd).bind fun _ d hd _ =>
    comesTo_self ⟨m, _, rfl, .get (Likeness.any_site _ _) he' hy, hd, by omega⟩

/-- An operand of a level binds more tightly than its operators. -/
theorem operand {e : Expr} (he : e.Readable) {l : Level} (hp : e.precedence < l.precedence)
    {n : Nat} (hc : c.kinds = e.tokens ++ k) (hk : Stops (l.precedence - 1) k)
    (hn : 16 * c.kinds.length + 1 + l.steps ≤ n) :
    (Reader.operand n l).Yields c k (e.Like .any) := by
  obtain ⟨n, rfl⟩ := Nat.exists_eq_add_of_le' (show 1 ≤ n by omega)
  rw [Reader.operand]
  obtain rfl | ⟨t, ht, -, htp⟩ := l.operandRule_eq
  · have hsteps : Level.factor.steps = 2 := rfl
    exact he.unary (Nat.le_of_lt_succ hp) hc (hk.mono (Nat.zero_le _)) (by omega)
  · rw [ht]
    rw [Level.steps_tighter ht] at hn
    exact (he.level (by omega)).yields hc (hk.mono (by omega)) (by omega)

theorem node (op : InfixOp) (s : Site) {l : Expr} (t : Span) {r : Expr} (hl : l.Readable)
    (hlp : l.precedence ≤ op.precedence) (hr : r.Readable) (hrp : r.precedence < op.precedence) :
    (op.node s l t r).Readable := by
  refine of_readAt (op.precedence_node s l t r) fun n c k hc hk hn => ?_
  rw [op.tokens_node, List.append_assoc, List.cons_append] at hc
  have hpos := op.level.two_le_precedence
  have hfirst : Stops (op.level.precedence - 1) (op.token :: (r.tokens ++ k)) :=
    stops_operator (Nat.sub_lt (Nat.lt_of_lt_of_le Nat.two_pos hpos) Nat.one_pos)
  refine (hl.level hlp hc hfirst hn).trans fun _ d ⟨m, l', hm, hl', hd, hmn⟩ => ?_
  subst hm
  obtain ⟨m, rfl⟩ := Nat.exists_eq_add_of_le' (show 1 ≤ m by omega)
  have hop : op.level.operator? d.kind = some op :=
    Level.operator?_eq_some.mpr ⟨rfl, Cursor.kind_of_kinds hd⟩
  have hsteps : op.level.steps ≤ 12 := by cases op.level <;> decide
  rw [List.length_cons, List.length_append] at hmn
  have hrest : (do
      let opSpan ← Reader.advance
      let right ← Reader.operand m op.level
      let node ← Reader.infixNode l' op opSpan right
      Reader.moreOperands m op.level node).ComesTo d (After (Reader.moreOperands · op.level)
        (op.node s l t r) k) := by
    refine (yields_advance hd).bind fun t' d hd _ => ?_
    refine (hr.operand hrp hd hk ?_).bind fun r' d hd hr' => ?_
    · rw [hd, List.length_append]
      omega
    · refine (Reader.yields_infixNode l' op t' r' hd).bind fun e d hd he =>
        comesTo_self ⟨m, e, rfl, ?_, hd, by omega⟩
      obtain ⟨s', rfl⟩ := he
      exact op.like_node hl' hr'
  refine hrest.congr ?_
  change Reader.moreOperands (m + 1) op.level l' d = _
  rw [Reader.moreOperands, Reader.ask_bind, hop]

/-- The target of an assignment is read as an expression. -/
theorem assigned {e target v : Expr} (htarget : target.Readable) (hp : target.precedence ≤ 7)
    (hv : v.Readable) (htokens : e.tokens = target.tokens ++ .symbol .eq :: v.tokens)
    (hnode : ∀ target' v' t c k, target.Like .any target' → v.Like .any v' → Cursor.kinds c = k →
      (Reader.assignNode target' t v').Yields c k (e.Like .any))
    (hep : e.precedence = 8) : e.Readable := by
  refine of_assignment hep fun n c k hc hk hn => ?_
  obtain ⟨n, rfl⟩ := Nat.exists_eq_add_of_le' (show 1 ≤ n by omega)
  rw [htokens, List.append_assoc, List.cons_append] at hc
  have hsteps : Level.or.steps = 12 := rfl
  have hlen := congrArg List.length hc
  rw [List.length_append, List.length_cons] at hlen
  rw [Reader.assignment]
  refine ((htarget.level (l := .or) hp).yields hc (stops_cons ?_) (by omega)).bind
    fun target' d hd ht => ?_
  · rintro _ ⟨⟩
    decide
  · refine comesTo_eat hd fun d hd => (Reader.yields_previous hd).bind fun t d hd _ => ?_
    exact (hv.assignment hd hk (by rw [hd]; omega)).bind fun v' d hd hv =>
      hnode target' v' t d k ht hv hd

theorem assign (s : Site) (x : Ident) {v : Expr} (hv : v.Readable) :
    (Expr.assign s x v).Readable := by
  refine assigned (var default x) (Nat.zero_le _) hv rfl (fun target' v' t c k ht hv hc => ?_) rfl
  cases ht with
  | var _ hx =>
    exact (yields_site _ hc).bind fun _ d hd _ =>
      yields_pure hd (.assign (Likeness.any_site _ _) hx hv)

theorem set (s : Site) {e : Expr} (x : Ident) {v : Expr} (he : e.Readable) (hp : e.precedence = 0)
    (hv : v.Readable) : (Expr.set s e x v).Readable := by
  refine assigned (get default x he hp) (Nat.zero_le _) hv (by simp [tokens])
    (fun target' v' t c k ht hv hc => ?_) rfl
  cases ht with
  | get _ he hx =>
    exact (yields_site _ hc).bind fun _ d hd _ =>
      yields_pure hd (.set (Likeness.any_site _ _) he hx hv)

end Expr.Readable

mutual

theorem Expr.readable : (e : Expr) → e.Canonical → e.Readable
  | .literal s v, _ => .literal s v
  | .grouping s e, h => .grouping s (e.readable h)
  | .unary s op t e, h => .unaryOp s op t (e.readable h.1) h.2
  | .binary s l op t r, h =>
    .node (.binary op) s t (l.readable h.1) h.2.1 (r.readable h.2.2.1) h.2.2.2
  | .logical s l op r, h =>
    .node (.logical op) s default (l.readable h.1) h.2.1 (r.readable h.2.2.1) h.2.2.2
  | .var s x, _ => .var s x
  | .assign s x v, h => .assign s x (v.readable h)
  | .call s f t es, h => .call s t (f.readable h.1) h.2.1 (Expr.readable_all es h.2.2.2) h.2.2.1
  | .get s e x, h => .get s x (e.readable h.1) h.2
  | .set s e x v, h => .set s x (e.readable h.1) h.2.1 (v.readable h.2.2)
  | .this s, _ => .this s
  | .super s x, _ => .super s x

theorem Expr.readable_all : (es : List Expr) → Expr.CanonicalAll es → ∀ e ∈ es, e.Readable
  | [], _ => nofun
  | e :: es, h => List.forall_mem_cons.mpr ⟨e.readable h.1, Expr.readable_all es h.2⟩

end

end Lox
