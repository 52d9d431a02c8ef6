import Lox.Proofs.Grammar.Clean
import Lox.Proofs.Grammar.Derivations
/-!
# What is read without errors

An expression that is read without errors is canonical, and what was taken are its tokens. A
statement that is read without errors is written as what was taken, and if that ends in a
conditional without an `else`, then no `else` comes next.
-/

namespace Lox

/-! ### Tokens of operators and literals -/

theorem Level.operator?_eq_some {l : Level} {k : TokenKind} {op : InfixOp} :
    l.operator? k = some op ↔ op.level = l ∧ k = op.token := by
  constructor
  · intro h
    unfold operator? at h
    split at h <;> cases h <;> exact ⟨rfl, rfl⟩
  · rintro ⟨rfl, rfl⟩
    cases op with
    | logical o => cases o <;> rfl
    | binary o => cases o <;> rfl

theorem UnaryOp.ofToken?_eq_some {k : TokenKind} {op : UnaryOp} :
    ofToken? k = some op ↔ k = op.token := by
  constructor
  · intro h
    unfold ofToken? at h
    split at h <;> cases h <;> rfl
  · rintro rfl
    cases op <;> rfl

theorem Literal.ofToken?_eq_some {k : TokenKind} {v : Literal} :
    ofToken? k = some v ↔ k = v.token := by
  constructor
  · intro h
    unfold ofToken? at h
    split at h <;> cases h <;> rfl
  · rintro rfl
    cases v with
    | bool b => cases b <;> rfl
    | nil | number | string => rfl

theorem InfixOp.isEof_token (op : InfixOp) : op.token.isEof = false := by
  cases op with
  | logical o => cases o <;> rfl
  | binary o => cases o <;> rfl

theorem UnaryOp.isEof_token (op : UnaryOp) : op.token.isEof = false := by cases op <;> rfl

theorem Literal.isEof_token (v : Literal) : v.token.isEof = false := by
  cases v with
  | bool b => cases b <;> rfl
  | nil | number | string => rfl

/-! ### Expressions -/

/-- The word `w` is made of the tokens of an expression, which binds at least as tightly
as `p`, and of `v`. -/
structure Expr.Begins (p : Nat) (w v : List TokenKind) (e : Expr) : Prop where
  canonical : e.Canonical
  precedence : e.precedence ≤ p
  tokens : w = e.tokens ++ v

theorem Expr.Begins.mono {p q : Nat} {w v : List TokenKind} {e : Expr} (h : e.Begins p w v)
    (hpq : p ≤ q) : e.Begins q w v :=
  ⟨h.canonical, Nat.le_trans h.precedence hpq, h.tokens⟩

namespace Reader

variable {c d : Cursor} {w : List TokenKind}

theorem Reads.infixNode {l r e : Expr} {op : InfixOp} {t : Span}
    (h : (infixNode l op t r).Reads c e d) : d.kinds = c.kinds ∧ ∃ s, e = op.node s l t r := by
  cases op with
  | logical o | binary o =>
    obtain ⟨s, f, hs, hpure⟩ := reads_bind.mp h
    obtain ⟨rfl, rfl⟩ := reads_pure.mp hpure
    exact ⟨hs.kinds_site, s, rfl⟩

/-- What may be assigned to is a variable or a property. -/
theorem Reads.assignNode {e v target : Expr} {t : Span} {u : List TokenKind}
    (h : (assignNode target t v).Reads c e d) (ht : target.Begins 7 w (.symbol .eq :: u))
    (hv : v.Begins 8 u c.kinds) : e.Begins 8 w d.kinds := by
  cases target with
  | var s x =>
    obtain ⟨s, f, hs, hpure⟩ := reads_bind.mp h
    obtain ⟨rfl, rfl⟩ := reads_pure.mp hpure
    refine ⟨hv.canonical, Nat.le_refl 8, ?_⟩
    rw [ht.tokens, hv.tokens, hs.kinds_site]
    rfl
  | get s o x =>
    obtain ⟨s, f, hs, hpure⟩ := reads_bind.mp h
    obtain ⟨rfl, rfl⟩ := reads_pure.mp hpure
    refine ⟨⟨ht.canonical.1, ht.canonical.2, hv.canonical⟩, Nat.le_refl 8, ?_⟩
    rw [ht.tokens, hv.tokens, hs.kinds_site]
    simp [Expr.tokens]
  | literal | grouping | unary | binary | logical | assign | call | set | this | super =>
    obtain ⟨_, f, hreport, -⟩ := reads_bind.mp h
    exact absurd hreport not_reads_reportAt

/-- What the readers of expressions that nest no deeper than `n` read without errors. -/
structure ExpressionSound (n : Nat) : Prop where
  assignment {c e d} : (assignment n).Reads c e d → e.Begins 8 c.kinds d.kinds
  level {c e d l} : (level n l).Reads c e d → e.Begins l.precedence c.kinds d.kinds
  moreOperands {c e d l w} {left : Expr} : left.Begins l.precedence w c.kinds →
    (moreOperands n l left).Reads c e d → e.Begins l.precedence w d.kinds
  operand {c e d l} : (operand n l).Reads c e d → e.Begins (l.precedence - 1) c.kinds d.kinds
  unary {c e d} : (unary n).Reads c e d → e.Begins 1 c.kinds d.kinds
  calls {c e d w} {f : Expr} : f.Begins 0 w c.kinds → (calls n f).Reads c e d → e.Begins 0 w d.kinds
  arguments {c es d count} : (arguments n count).Reads c es d →
    es ≠ [] ∧ Expr.CanonicalAll es ∧ count + es.length ≤ maxArity ∧
      c.kinds = separated (Expr.tokensAll es) ++ d.kinds
  primary {c e d} : (primary n).Reads c e d → e.Begins 0 c.kinds d.kinds

namespace ExpressionSound

variable {n : Nat} {e : Expr} (ih : ExpressionSound n)

include ih

theorem assignment_succ (h : (Reader.assignment (n + 1)).Reads c e d) :
    e.Begins 8 c.kinds d.kinds := by
  rw [Reader.assignment, reads_bind] at h
  obtain ⟨target, f, htarget, h⟩ := h
  have ht := ih.level htarget
  rw [reads_eat] at h
  obtain ⟨hk, h⟩ | ⟨-, h⟩ := h
  · simp only [reads_bind] at h
    obtain ⟨t, g, hprev, v, i, hv, h⟩ := h
    cases hprev.eq
    rw [Cursor.kinds_of_kind hk rfl] at ht
    exact h.assignNode ht (ih.assignment hv)
  · obtain ⟨rfl, rfl⟩ := reads_pure.mp h
    exact ht.mono (by decide)

theorem level_succ {l : Level} (h : (Reader.level (n + 1) l).Reads c e d) :
    e.Begins l.precedence c.kinds d.kinds := by
  rw [Reader.level, reads_bind] at h
  obtain ⟨left, f, hleft, h⟩ := h
  exact ih.moreOperands ((ih.operand hleft).mono (Nat.sub_le _ _)) h

theorem moreOperands_succ {l : Level} {left : Expr} (hl : left.Begins l.precedence w c.kinds)
    (h : (Reader.moreOperands (n + 1) l left).Reads c e d) : e.Begins l.precedence w d.kinds := by
  rw [Reader.moreOperands, reads_ask_bind] at h
  split at h
  · obtain ⟨rfl, rfl⟩ := reads_pure.mp h
    exact hl
  · rename_i op hop
    obtain ⟨rfl, hk⟩ := Level.operator?_eq_some.mp hop
    simp only [reads_bind] at h
    obtain ⟨t, f, ht, right, g, hright, node, i, hnode, h⟩ := h
    obtain ⟨hkinds, s, rfl⟩ := hnode.infixNode
    have hr := ih.operand hright
    have hpos := op.level.two_le_precedence
    refine ih.moreOperands ⟨?_, Nat.le_of_eq (op.precedence_node s left t right), ?_⟩ h
    · rw [InfixOp.canonical_node]
      exact ⟨hl.canonical, hl.precedence, hr.canonical,
        Nat.lt_of_le_of_lt hr.precedence
          (Nat.sub_lt (Nat.lt_of_lt_of_le Nat.two_pos hpos) Nat.one_pos)⟩
    · rw [hl.tokens, ht.kinds_advance hk op.isEof_token, hr.tokens, op.tokens_node, hkinds]
      simp

theorem operand_succ {l : Level} (h : (Reader.operand (n + 1) l).Reads c e d) :
    e.Begins (l.precedence - 1) c.kinds d.kinds := by
  rw [Reader.operand] at h
  obtain rfl | ⟨t, ht, -, hp⟩ := l.operandRule_eq
  · exact ih.unary h
  · rw [ht] at h
    rw [hp]
    exact ih.level h

theorem unary_succ (h : (Reader.unary (n + 1)).Reads c e d) : e.Begins 1 c.kinds d.kinds := by
  rw [Reader.unary, reads_ask_bind] at h
  split at h
  · rw [reads_bind] at h
    obtain ⟨callee, f, hcallee, h⟩ := h
    exact (ih.calls (ih.primary hcallee) h).mono (Nat.zero_le 1)
  · rename_i op hop
    simp only [reads_bind, reads_pure] at h
    obtain ⟨t, f, ht, e, g, he, s, i, hs, rfl, rfl⟩ := h
    have he := ih.unary he
    refine ⟨⟨he.canonical, he.precedence⟩, Nat.le_refl 1, ?_⟩
    rw [ht.kinds_advance (UnaryOp.ofToken?_eq_some.mp hop) op.isEof_token, he.tokens, hs.kinds_site]
    rfl

theorem callRest {f : Expr} {u : List TokenKind} (hf : f.Begins 0 w (.symbol .leftParen :: u))
    {es : List Expr} (hes : Expr.CanonicalAll es) (hlen : es.length ≤ maxArity)
    (hu : u = separated (Expr.tokensAll es) ++ c.kinds) (h : (Reader.callRest n f es).Reads c e d) :
    e.Begins 0 w d.kinds := by
  simp only [Reader.callRest, reads_bind] at h
  obtain ⟨t, g, ht, s, i, hs, h⟩ := h
  have hcanonical : (Expr.call s f t es).Canonical :=
    ⟨hf.canonical, Nat.le_zero.mp hf.precedence, hlen, hes⟩
  refine ih.calls ⟨hcanonical, Nat.le_refl 0, ?_⟩ h
  rw [hf.tokens, hu, ht.kinds_expect, hs.kinds_site]
  simp [Expr.tokens]

theorem calls_succ {f : Expr} (hf : f.Begins 0 w c.kinds)
    (h : (Reader.calls (n + 1) f).Reads c e d) : e.Begins 0 w d.kinds := by
  rw [Reader.calls, reads_eat] at h
  obtain ⟨hk, h⟩ | ⟨-, h⟩ := h
  · rw [Cursor.kinds_of_kind hk rfl] at hf
    change Reads (do if ← isSymbol .rightParen then Reader.callRest n f [] else
      Reader.arguments n 0 >>= Reader.callRest n f) _ _ _ at h
    rw [reads_isSymbol] at h
    obtain ⟨-, h⟩ | ⟨-, h⟩ := h
    · have hnone : Expr.CanonicalAll [] := trivial
      exact ih.callRest hf hnone (Nat.zero_le _) rfl h
    · obtain ⟨es, g, hes, h⟩ := reads_bind.mp h
      obtain ⟨-, hcanonical, hlen, hkinds⟩ := ih.arguments hes
      exact ih.callRest hf hcanonical (by omega) hkinds h
  · rw [reads_eat] at h
    obtain ⟨hk, h⟩ | ⟨-, h⟩ := h
    · simp only [reads_bind] at h
      obtain ⟨x, g, hx, s, i, hs, h⟩ := h
      have hcanonical : (Expr.get s f x).Canonical := ⟨hf.canonical, Nat.le_zero.mp hf.precedence⟩
      refine ih.calls ⟨hcanonical, Nat.le_refl 0, ?_⟩ h
      rw [hf.tokens, Cursor.kinds_of_kind hk rfl, hx.kinds_name, hs.kinds_site]
      simp [Expr.tokens]
    · obtain ⟨rfl, rfl⟩ := reads_pure.mp h
      exact hf

theorem arguments_succ {es : List Expr} {count : Nat}
    (h : (Reader.arguments (n + 1) count).Reads c es d) :
    es ≠ [] ∧ Expr.CanonicalAll es ∧ count + es.length ≤ maxArity ∧
      c.kinds = separated (Expr.tokensAll es) ++ d.kinds := by
  rw [Reader.arguments] at h
  split at h
  · obtain ⟨_, f, hreport, -⟩ := reads_bind.mp h
    exact absurd hreport not_reads_report
  · rename_i hcount
    obtain ⟨e, f, he, h⟩ := reads_bind.mp h
    have he := ih.assignment he
    rw [reads_eat] at h
    obtain ⟨hk, h⟩ | ⟨-, h⟩ := h
    · simp only [reads_bind, reads_pure] at h
      obtain ⟨es, g, hes, rfl, rfl⟩ := h
      obtain ⟨hne, hcanonical, hlen, hkinds⟩ := ih.arguments hes
      refine ⟨List.cons_ne_nil _ _, ⟨he.canonical, hcanonical⟩, ?_, ?_⟩
      · rw [List.length_cons]
        omega
      · rw [he.tokens, Cursor.kinds_of_kind hk rfl, hkinds, Expr.tokensAll,
          separated_cons_of_ne_nil]
        · simp
        · simpa [Expr.tokensAll_eq_map] using hne
    · obtain ⟨rfl, rfl⟩ := reads_pure.mp h
      refine ⟨List.cons_ne_nil _ _, ⟨he.canonical, trivial⟩, Nat.lt_of_not_le hcount, ?_⟩
      rw [he.tokens]
      simp [Expr.tokensAll, separated]

theorem primary_succ (h : (Reader.primary (n + 1)).Reads c e d) : e.Begins 0 c.kinds d.kinds := by
  rw [Reader.primary, here, reads_ask_bind, reads_ask_bind] at h
  split at h
  · rename_i hk
    simp only [reads_bind, reads_pure] at h
    obtain ⟨_, f, ht, s, g, hs, rfl, rfl⟩ := h
    exact ⟨trivial, Nat.le_refl 0, by rw [ht.kinds_advance hk rfl, hs.kinds_site]; rfl⟩
  · rename_i x hk
    simp only [reads_bind, reads_pure] at h
    obtain ⟨_, f, ht, s, g, hs, rfl, rfl⟩ := h
    exact ⟨trivial, Nat.le_refl 0, by rw [ht.kinds_advance hk rfl, hs.kinds_site]; rfl⟩
  · rename_i hk
    simp only [reads_bind, reads_pure] at h
    obtain ⟨_, f, ht, _, g, hdot, x, i, hx, s, j, hs, rfl, rfl⟩ := h
    refine ⟨trivial, Nat.le_refl 0, ?_⟩
    rw [ht.kinds_advance hk rfl, hdot.kinds_expect, hx.kinds_name, hs.kinds_site]
    rfl
  · rename_i hk
    simp only [reads_bind, reads_pure] at h
    obtain ⟨_, f, ht, v, g, hv, p, i, hp, s, j, hs, rfl, rfl⟩ := h
    have hv := ih.assignment hv
    refine ⟨hv.canonical, Nat.le_refl 0, ?_⟩
    rw [ht.kinds_advance hk rfl, hv.tokens, hp.kinds_expect, hs.kinds_site]
    simp [Expr.tokens]
  · split at h
    · rename_i v hv
      simp only [reads_bind, reads_pure] at h
      obtain ⟨_, f, ht, s, g, hs, rfl, rfl⟩ := h
      refine ⟨trivial, Nat.le_refl 0, ?_⟩
      rw [ht.kinds_advance (Literal.ofToken?_eq_some.mp hv) v.isEof_token, hs.kinds_site]
      rfl
    · obtain ⟨_, f, hreport, -⟩ := reads_bind.mp h
      exact absurd hreport not_reads_report

end ExpressionSound

private theorem expressionSound (n : Nat) : ExpressionSound n := by
  induction n with
  | zero => constructor <;> intros <;> exact absurd ‹Reads _ _ _ _› not_reads_fail
  | succ n ih =>
    exact {
      assignment := ih.assignment_succ
      level := ih.level_succ
      moreOperands := ih.moreOperands_succ
      operand := ih.operand_succ
      unary := ih.unary_succ
      calls := ih.calls_succ
      arguments := ih.arguments_succ
      primary := ih.primary_succ }

/-- An expression that is read without errors. -/
theorem Reads.expression {e : Expr} (h : Reader.expression.Reads c e d) :
    e.Begins 8 c.kinds d.kinds :=
  (expressionSound (expressionFuel c)).assignment ⟨h.eq, h.errors⟩

end Reader

/-! ### Statements -/

theorem Stmt.Written.ne_nil {o : Bool} {w : List TokenKind} {s : Stmt} (h : Stmt.Written o w s) :
    w ≠ [] := by
  cases h <;> simp [headTokens, forTokens]

theorem Stmt.Declared.ne_nil {w : List TokenKind} {s : Stmt} (h : Stmt.Declared w s) : w ≠ [] := by
  cases h with
  | statement hs => exact hs.ne_nil
  | var | function | classDecl => simp [varTokens, classTokens]

theorem FunctionDecl.Written.ne_nil {w : List TokenKind} {d : FunctionDecl}
    (h : FunctionDecl.Written w d) : w ≠ [] := by
  cases h
  simp [tokensWith]

/-- What is taken between two cursors is a word that the statement is written as. -/
def Stmt.Taken (c d : Cursor) (s : Stmt) : Prop :=
  ∃ o w, c.kinds = w ++ d.kinds ∧ Stmt.Written o w s ∧ (o = true → d.kind ≠ .keyword .else)

theorem Stmt.Written.taken {c d : Cursor} {w : List TokenKind} {s : Stmt}
    (hw : Stmt.Written false w s) (h : c.kinds = w ++ d.kinds) : s.Taken c d :=
  ⟨false, w, h, hw, nofun⟩

namespace Reader

variable {c d : Cursor} {w : List TokenKind} {n : Nat}

theorem Reads.expressionUnless {s : Symbol} {e : Option Expr}
    (h : (expressionUnless s).Reads c e d) :
    (∀ v ∈ e, Expr.Canonical v) ∧ c.kinds = Expr.optionTokens e ++ d.kinds := by
  rw [Reader.expressionUnless, reads_isSymbol] at h
  obtain ⟨-, h⟩ | ⟨-, h⟩ := h
  · obtain ⟨rfl, rfl⟩ := reads_pure.mp h
    exact ⟨nofun, rfl⟩
  · simp only [reads_bind, reads_pure] at h
    obtain ⟨v, f, hv, rfl, rfl⟩ := h
    exact ⟨by simpa using hv.expression.canonical, hv.expression.tokens⟩

theorem Reads.parameters {count : Nat} {ps : List Ident} (h : (parameters n count).Reads c ps d) :
    ps ≠ [] ∧ count + ps.length ≤ maxArity ∧
    c.kinds = separated (ps.map fun p => [p.token]) ++ d.kinds := by
  induction n generalizing c count ps with
  | zero => exact absurd h not_reads_fail
  | succ n ih =>
    rw [Reader.parameters] at h
    split at h
    · obtain ⟨_, f, hreport, -⟩ := reads_bind.mp h
      exact absurd hreport not_reads_report
    · rename_i hcount
      obtain ⟨x, f, hx, h⟩ := reads_bind.mp h
      rw [reads_eat] at h
      obtain ⟨hk, h⟩ | ⟨-, h⟩ := h
      · simp only [reads_bind, reads_pure] at h
        obtain ⟨xs, g, hxs, rfl, rfl⟩ := h
        obtain ⟨hne, hlen, hkinds⟩ := ih hxs
        refine ⟨List.cons_ne_nil _ _, ?_, ?_⟩
        · rw [List.length_cons]
          omega
        · rw [hx.kinds_name, Cursor.kinds_of_kind hk rfl, hkinds, List.map_cons,
            separated_cons_of_ne_nil]
          · simp
          · simpa using hne
      · obtain ⟨rfl, rfl⟩ := reads_pure.mp h
        refine ⟨List.cons_ne_nil _ _, Nat.lt_of_not_le hcount, ?_⟩
        rw [hx.kinds_name]
        simp [separated]

theorem Reads.parametersEnd {ps ps' : List Ident} (h : (parametersEnd ps).Reads c ps' d) :
    ps' = ps ∧ c.kinds = .symbol .rightParen :: d.kinds := by
  simp only [Reader.parametersEnd, reads_bind, reads_pure] at h
  obtain ⟨_, f, hclose, rfl, rfl⟩ := h
  exact ⟨rfl, hclose.kinds_expect⟩

theorem Reads.parameterList {sort : String} {ps : List Ident}
    (h : (parameterList sort).Reads c ps d) :
    ps.length ≤ maxArity ∧
      c.kinds = .symbol .leftParen ::
        (separated (ps.map fun p => [p.token]) ++ .symbol .rightParen :: d.kinds) := by
  rw [parameterList_eq, reads_bind] at h
  obtain ⟨_, f, hopen, h⟩ := h
  rw [reads_isSymbol] at h
  obtain ⟨-, h⟩ | ⟨-, h⟩ := h
  · obtain ⟨rfl, hclose⟩ := h.parametersEnd
    exact ⟨Nat.zero_le _, by rw [hopen.kinds_expect, hclose]; rfl⟩
  · obtain ⟨xs, g, ⟨hxs, hclean⟩, h⟩ := reads_bind.mp h
    obtain ⟨rfl, hclose⟩ := h.parametersEnd
    have hread : (Reader.parameters (f.rest.length + 1) 0).Reads f ps g := ⟨hxs, hclean⟩
    obtain ⟨-, hlen, hkinds⟩ := hread.parameters
    exact ⟨by rwa [Nat.zero_add] at hlen, by rw [hopen.kinds_expect, hkinds, hclose]⟩

theorem Reads.varDecl {s : Stmt} (hk : c.kind = .keyword .var) (h : varDecl.Reads c s d) :
    ∃ t x e, s = .var t x e ∧ (∀ v ∈ e, Expr.Canonical v) ∧
    c.kinds = Stmt.varTokens x e ++ d.kinds := by
  rw [Reader.varDecl] at h
  obtain ⟨t, f, ht, h⟩ := reads_bind.mp h
  obtain ⟨x, g, hx, h⟩ := reads_bind.mp h
  have hstart : c.kinds = .keyword .var :: x.token :: g.kinds := by
    rw [ht.kinds_advance hk rfl, hx.kinds_name]
  rw [reads_eat] at h
  obtain ⟨he, h⟩ | ⟨-, h⟩ := h
  · simp only [reads_bind, reads_map, reads_pure] at h
    obtain ⟨_, i, ⟨v, hv, rfl⟩, t', j, hsemi, rfl, rfl⟩ := h
    refine ⟨_, x, some v, rfl, by simpa using hv.expression.canonical, ?_⟩
    rw [hstart, Cursor.kinds_of_kind he rfl, hv.expression.tokens, hsemi.kinds_expect]
    simp [Stmt.varTokens, Expr.initialTokens]
  · simp only [reads_bind, reads_pure] at h
    obtain ⟨_, _, ⟨rfl, rfl⟩, t', j, hsemi, rfl, rfl⟩ := h
    refine ⟨_, x, none, rfl, by simp, ?_⟩
    rw [hstart, hsemi.kinds_expect]
    rfl

theorem Reads.forInitial {i : Option Stmt} (h : forInitial.Reads c i d) :
    ∃ w, Stmt.Initial w i ∧ c.kinds = w ++ d.kinds := by
  rw [Reader.forInitial, reads_eat] at h
  obtain ⟨hk, h⟩ | ⟨-, h⟩ := h
  · obtain ⟨rfl, rfl⟩ := reads_pure.mp h
    exact ⟨_, .none, Cursor.kinds_of_kind hk rfl⟩
  · rw [reads_ask_ite, Cursor.isKeyword_iff] at h
    obtain ⟨hk, h⟩ | ⟨-, h⟩ := h
    · obtain ⟨s, hs, rfl⟩ := reads_map.mp h
      obtain ⟨t, x, e, rfl, he, hkinds⟩ := hs.varDecl hk
      exact ⟨_, .var he, hkinds⟩
    · simp only [reads_bind, reads_pure] at h
      obtain ⟨e, f, he, _, g, hsemi, rfl, rfl⟩ := h
      refine ⟨_, .expr he.expression.canonical, ?_⟩
      rw [he.expression.tokens, hsemi.kinds_expect]
      simp

theorem Reads.superclass {p : Option Superclass} (h : superclass.Reads c p d) :
    c.kinds = Superclass.tokens p ++ d.kinds := by
  rw [Reader.superclass, reads_eat] at h
  obtain ⟨hk, h⟩ | ⟨-, h⟩ := h
  · simp only [reads_bind, reads_pure] at h
    obtain ⟨x, f, hx, s, g, hs, rfl, rfl⟩ := h
    rw [Cursor.kinds_of_kind hk rfl, hx.kinds_name, hs.kinds_site]
    rfl
  · obtain ⟨rfl, rfl⟩ := reads_pure.mp h
    rfl

theorem Reads.printStmt {s : Stmt} (hk : c.kind = .keyword .print) (h : printStmt.Reads c s d) :
    s.Taken c d := by
  simp only [Reader.printStmt, reads_bind, reads_pure] at h
  obtain ⟨_, f, ht, e, g, he, _, i, hsemi, rfl, rfl⟩ := h
  refine Stmt.Written.taken (.print he.expression.canonical) ?_
  rw [ht.kinds_advance hk rfl, he.expression.tokens, hsemi.kinds_expect]
  simp

theorem Reads.returnStmt {s : Stmt} (hk : c.kind = .keyword .return) (h : returnStmt.Reads c s d) :
    s.Taken c d := by
  simp only [Reader.returnStmt, reads_bind, reads_pure] at h
  obtain ⟨_, f, ht, e, g, he, _, i, hsemi, rfl, rfl⟩ := h
  refine Stmt.Written.taken (.returning he.expressionUnless.1) ?_
  rw [ht.kinds_advance hk rfl, he.expressionUnless.2, hsemi.kinds_expect]
  simp

theorem Reads.expressionStmt {s : Stmt} (h : expressionStmt.Reads c s d) : s.Taken c d := by
  simp only [Reader.expressionStmt, reads_bind, reads_pure] at h
  obtain ⟨e, g, he, _, i, hsemi, rfl, rfl⟩ := h
  refine Stmt.Written.taken (.expr he.expression.canonical) ?_
  rw [he.expression.tokens, hsemi.kinds_expect]
  simp

theorem Reads.ifEnd {t : Span} {e : Expr} {yes s : Stmt} {no : Option Stmt}
    (h : (ifEnd t e yes no).Reads c s d) : d = c ∧ ∃ t, s = .ifElse t e yes no := by
  simp only [Reader.ifEnd, reads_bind, reads_pure] at h
  obtain ⟨_, _, hprev, rfl, rfl⟩ := h
  cases hprev.eq
  exact ⟨rfl, _, rfl⟩

theorem Reads.forEnd {t u : Span} {initial : Option Stmt} {condition increment : Option Expr}
    {body s : Stmt} (h : (forEnd t initial u increment body condition).Reads c s d) :
    d.kinds = c.kinds ∧ d.kind = c.kind ∧
      ∃ t p, s = .forLoop t initial (condition.getD (.literal p (.bool true))) increment body := by
  cases condition with
  | some e =>
    simp only [Reader.forEnd, reads_bind, reads_pure] at h
    obtain ⟨_, _, hprev, rfl, rfl⟩ := h
    cases hprev.eq
    exact ⟨rfl, rfl, _, default, rfl⟩
  | none =>
    simp only [Reader.forEnd, reads_bind, reads_pure] at h
    obtain ⟨_, _, hprev, p, _, hp, rfl, rfl⟩ := h
    cases hprev.eq
    obtain ⟨-, rfl⟩ := reads_site.mp hp
    exact ⟨rfl, rfl, _, p, rfl⟩

/-- What the readers of statements read without errors, when they get the fuel `n`
and that is enough. -/
structure StatementSound (n : Nat) : Prop where
  declaration {c s d} : 4 * c.kinds.length + 4 ≤ n → (declaration n).Reads c s d →
    ∃ w, c.kinds = w ++ d.kinds ∧ Stmt.Declared w s
  declarations {c ss d} : 4 * c.kinds.length + 5 ≤ n → (declarations n).Reads c ss d →
    ∃ w, c.kinds = w ++ d.kinds ∧ Stmt.DeclaredAll w ss
  block {c b d} : 4 * c.kinds.length + 2 ≤ n → (block n).Reads c b d →
    ∃ w, c.kinds = .symbol .leftBrace :: (w ++ .symbol .rightBrace :: d.kinds) ∧
    Stmt.DeclaredAll w b.1
  function {c f d} (sort) : 4 * c.kinds.length + 3 ≤ n → (function n sort).Reads c f d →
    ∃ w, c.kinds = w ++ d.kinds ∧ FunctionDecl.Written w f
  methods {c fs d} : 4 * c.kinds.length + 4 ≤ n → (methods n).Reads c fs d →
    ∃ w, c.kinds = w ++ d.kinds ∧ FunctionDecl.WrittenAll w fs
  classDecl {c s d} : c.kind = .keyword .cls → 4 * c.kinds.length + 1 ≤ n →
    (classDecl n).Reads c s d →
    ∃ w, c.kinds = w ++ d.kinds ∧ Stmt.Declared w s
  statement {c s d} : 4 * c.kinds.length + 3 ≤ n → (statement n).Reads c s d → s.Taken c d
  ifStmt {c s d} : c.kind = .keyword .if → 4 * c.kinds.length + 2 ≤ n →
    (ifStmt n).Reads c s d → s.Taken c d
  whileStmt {c s d} : c.kind = .keyword .while → 4 * c.kinds.length + 2 ≤ n →
    (whileStmt n).Reads c s d →
    s.Taken c d
  forStmt {c s d} : c.kind = .keyword .for → 4 * c.kinds.length + 2 ≤ n →
    (forStmt n).Reads c s d → s.Taken c d

namespace StatementSound

theorem length_lt {v : List TokenKind} (h : c.kinds = w ++ v) (hw : w ≠ []) :
    v.length < c.kinds.length := by
  rw [h, List.length_append]
  exact Nat.lt_add_of_pos_left (List.length_pos_iff.mpr hw)

/-- The condition in parentheses after the first word. -/
theorem kinds_head {k : Keyword} (hk : c.kind = .keyword k) {t t' t'' : Span}
    {place place' : String} {e : Expr} {f g i j : Cursor} (ht : advance.Reads c t f)
    (hopen : (expect .leftParen place).Reads f t' g) (he : expression.Reads g e i)
    (hclose : (expect .rightParen place').Reads i t'' j) :
    c.kinds = Stmt.headTokens k e ++ j.kinds := by
  rw [ht.kinds_advance hk rfl, hopen.kinds_expect, he.expression.tokens, hclose.kinds_expect]
  simp [Stmt.headTokens]

variable {s : Stmt} (ih : StatementSound n)

include ih

theorem declaration_succ (hn : 4 * c.kinds.length + 4 ≤ n + 1)
    (h : (Reader.declaration (n + 1)).Reads c s d) :
    ∃ w, c.kinds = w ++ d.kinds ∧ Stmt.Declared w s := by
  obtain ⟨heq, hclean⟩ := h
  rw [StatementRuns.declaration_eq] at heq
  have h : (StatementRuns.declarationOf n c.kind).Reads c s d := by
    refine ⟨?_, hclean⟩
    generalize StatementRuns.declarationOf n c.kind c = o at heq ⊢
    obtain ⟨_ | s, _⟩ := o
    · cases heq
    · exact heq
  unfold StatementRuns.declarationOf at h
  split at h
  · rename_i hk
    exact ih.classDecl hk (by omega) h
  · rename_i hk
    simp only [reads_bind, reads_pure] at h
    obtain ⟨_, f, ht, g, i, hg, rfl, rfl⟩ := h
    have hkinds := ht.kinds_advance hk rfl
    obtain ⟨w, hw, hwritten⟩ := ih.function _ (by simp [hkinds] at hn; omega) hg
    exact ⟨_, by rw [hkinds, hw]; rfl, .function hwritten⟩
  · rename_i hk
    obtain ⟨t, x, e, rfl, he, hkinds⟩ := h.varDecl hk
    exact ⟨_, hkinds, .var he⟩
  · obtain ⟨o, w, hkinds, hwritten, -⟩ := ih.statement (by omega) h
    exact ⟨w, hkinds, .statement hwritten⟩

theorem declarations_succ {ss : List Stmt} (hn : 4 * c.kinds.length + 5 ≤ n + 1)
    (h : (Reader.declarations (n + 1)).Reads c ss d) :
    ∃ w, c.kinds = w ++ d.kinds ∧ Stmt.DeclaredAll w ss := by
  rw [Reader.declarations, reads_ask_ite] at h
  obtain ⟨-, h⟩ | ⟨-, h⟩ := h
  · obtain ⟨rfl, rfl⟩ := reads_pure.mp h
    exact ⟨[], rfl, .nil⟩
  · simp only [reads_bind, reads_pure] at h
    obtain ⟨o, f, ho, ss, g, hss, rfl, rfl⟩ := h
    have hfuel : 4 * c.rest.length + 4 ≤ n := by
      rw [c.length_kinds]
      omega
    have htwins : StatementTwins .same _ none n :=
      statementTwins Likeness.numbers_same (fun _ ht => by cases ht) n
    have hkeeps := (htwins.declaration c.like_self hfuel hfuel).1.toKeeps
    obtain ⟨s, rfl, hs⟩ := ho.of_attempt hkeeps
    obtain ⟨w, hw, hdeclared⟩ := ih.declaration (by omega) hs
    have hlt := length_lt hw hdeclared.ne_nil
    obtain ⟨v, hv, hrest⟩ := ih.declarations (by omega) hss
    exact ⟨w ++ v, by rw [hw, hv, List.append_assoc], .cons hdeclared hrest⟩

theorem block_succ {b : List Stmt × Span} (hn : 4 * c.kinds.length + 2 ≤ n + 1)
    (h : (Reader.block (n + 1)).Reads c b d) :
    ∃ w, c.kinds = .symbol .leftBrace :: (w ++ .symbol .rightBrace :: d.kinds) ∧
    Stmt.DeclaredAll w b.1 := by
  simp only [Reader.block, reads_bind, reads_pure] at h
  obtain ⟨_, f, hopen, body, g, hbody, _, i, hclose, rfl, rfl⟩ := h
  have hkinds := hopen.kinds_expect
  have hlen := congrArg List.length hkinds
  rw [List.length_cons] at hlen
  obtain ⟨w, hw, hdeclared⟩ := ih.declarations (by omega) hbody
  exact ⟨w, by rw [hkinds, hw, hclose.kinds_expect], hdeclared⟩

theorem function_succ {sort : String} {f : FunctionDecl} (hn : 4 * c.kinds.length + 3 ≤ n + 1)
    (h : (Reader.function (n + 1) sort).Reads c f d) :
    ∃ w, c.kinds = w ++ d.kinds ∧ FunctionDecl.Written w f := by
  rw [Reader.function] at h
  obtain ⟨x, i, hx, h⟩ := reads_bind.mp h
  obtain ⟨ps, j, hps, h⟩ := reads_bind.mp h
  obtain ⟨hlen, hparameters⟩ := hps.parameterList
  have hkinds := hx.kinds_name
  rw [hparameters] at hkinds
  rw [reads_isSymbol] at h
  obtain ⟨-, h⟩ | ⟨-, h⟩ := h
  · simp only [reads_bind, reads_pure] at h
    obtain ⟨b, k, hb, rfl, rfl⟩ := h
    have hfuel := congrArg List.length hkinds
    simp only [List.length_cons, List.length_append] at hfuel
    obtain ⟨w, hw, hbody⟩ := ih.block (by omega) hb
    refine ⟨_, ?_, .mk hlen hbody⟩
    rw [hkinds, hw]
    simp [FunctionDecl.tokensWith]
  · obtain ⟨_, k, hreport, -⟩ := reads_bind.mp h
    exact absurd hreport not_reads_report

theorem methods_succ {fs : List FunctionDecl} (hn : 4 * c.kinds.length + 4 ≤ n + 1)
    (h : (Reader.methods (n + 1)).Reads c fs d) :
    ∃ w, c.kinds = w ++ d.kinds ∧ FunctionDecl.WrittenAll w fs := by
  rw [Reader.methods, reads_ask_ite] at h
  obtain ⟨-, h⟩ | ⟨-, h⟩ := h
  · obtain ⟨rfl, rfl⟩ := reads_pure.mp h
    exact ⟨[], rfl, .nil⟩
  · simp only [reads_bind, reads_pure] at h
    obtain ⟨f, i, hf, fs, j, hfs, rfl, rfl⟩ := h
    obtain ⟨w, hw, hwritten⟩ := ih.function _ (by omega) hf
    have hlt := length_lt hw hwritten.ne_nil
    obtain ⟨v, hv, hrest⟩ := ih.methods (by omega) hfs
    exact ⟨w ++ v, by rw [hw, hv, List.append_assoc], .cons hwritten hrest⟩

theorem classDecl_succ (hk : c.kind = .keyword .cls) (hn : 4 * c.kinds.length + 1 ≤ n + 1)
    (h : (Reader.classDecl (n + 1)).Reads c s d) :
    ∃ w, c.kinds = w ++ d.kinds ∧ Stmt.Declared w s := by
  simp only [Reader.classDecl, reads_bind, reads_pure] at h
  obtain ⟨_, f, ht, x, g, hx, p, i, hp, _, j, hopen, ms, k, hms, _, l, hclose, rfl, rfl⟩ := h
  have hkinds := ht.kinds_advance hk rfl
  rw [hx.kinds_name, hp.superclass, hopen.kinds_expect] at hkinds
  have hfuel := congrArg List.length hkinds
  simp only [List.length_cons, List.length_append] at hfuel
  obtain ⟨w, hw, hwritten⟩ := ih.methods (by omega) hms
  refine ⟨_, ?_, .classDecl hwritten⟩
  rw [hkinds, hw, hclose.kinds_expect]
  simp [Stmt.classTokens]

theorem statement_succ (hn : 4 * c.kinds.length + 3 ≤ n + 1)
    (h : (Reader.statement (n + 1)).Reads c s d) : s.Taken c d := by
  rw [Reader.statement, reads_ask_bind] at h
  split at h
  · rename_i hk
    exact h.printStmt hk
  · rename_i hk
    exact ih.ifStmt hk (by omega) h
  · rename_i hk
    exact ih.whileStmt hk (by omega) h
  · rename_i hk
    exact ih.forStmt hk (by omega) h
  · rename_i hk
    exact h.returnStmt hk
  · simp only [reads_bind, reads_pure] at h
    obtain ⟨b, f, hb, rfl, rfl⟩ := h
    obtain ⟨w, hw, hbody⟩ := ih.block (by omega) hb
    exact Stmt.Written.taken (.block hbody) (by rw [hw]; simp)
  · exact h.expressionStmt

theorem ifStmt_succ (hk : c.kind = .keyword .if) (hn : 4 * c.kinds.length + 2 ≤ n + 1)
    (h : (Reader.ifStmt (n + 1)).Reads c s d) : s.Taken c d := by
  rw [ifStmt_eq] at h
  obtain ⟨_, f, ht, h⟩ := reads_bind.mp h
  obtain ⟨_, g, hopen, h⟩ := reads_bind.mp h
  obtain ⟨e, i, he, h⟩ := reads_bind.mp h
  obtain ⟨_, j, hclose, h⟩ := reads_bind.mp h
  obtain ⟨yes, l, hyes, h⟩ := reads_bind.mp h
  have hkinds := kinds_head hk ht hopen he hclose
  have hfuel := congrArg List.length hkinds
  simp only [List.length_append, Stmt.headTokens, List.length_cons] at hfuel
  obtain ⟨o, w, hw, hwritten, helse⟩ := ih.statement (by omega) hyes
  rw [reads_eatKeyword] at h
  obtain ⟨hk', h⟩ | ⟨hk', h⟩ := h
  · -- An `else` after the first branch is taken, so that branch does not end in a conditional without one.
    obtain rfl : o = false := Bool.eq_false_iff.mpr fun ho => helse ho hk'
    simp only [reads_bind, reads_map] at h
    obtain ⟨_, m, ⟨no, hno, rfl⟩, h⟩ := h
    obtain ⟨rfl, t, rfl⟩ := h.ifEnd
    have hkinds' := Cursor.kinds_of_kind hk' rfl
    rw [hkinds'] at hw
    have hfuel' := congrArg List.length hw
    simp only [List.length_append, List.length_cons] at hfuel'
    obtain ⟨o', v, hv, hwritten', helse'⟩ := ih.statement (by omega) hno
    refine ⟨o', _, ?_, .ifElse he.expression.canonical hwritten hwritten', helse'⟩
    rw [hkinds, hw, hv]
    simp
  · obtain ⟨rfl, t, rfl⟩ := h.ifEnd
    exact ⟨true, _, by
      rw [hkinds, hw, List.append_assoc], .ifThen he.expression.canonical hwritten, fun _ => hk'⟩

theorem whileStmt_succ (hk : c.kind = .keyword .while) (hn : 4 * c.kinds.length + 2 ≤ n + 1)
    (h : (Reader.whileStmt (n + 1)).Reads c s d) : s.Taken c d := by
  simp only [Reader.whileStmt, reads_bind, reads_pure] at h
  obtain ⟨_, f, ht, _, g, hopen, e, i, he, _, j, hclose, s, k, hs, _, _, hprev, rfl, rfl⟩ := h
  cases hprev.eq
  have hkinds := kinds_head hk ht hopen he hclose
  have hfuel := congrArg List.length hkinds
  simp only [List.length_append, Stmt.headTokens, List.length_cons] at hfuel
  obtain ⟨o, w, hw, hwritten, helse⟩ := ih.statement (by omega) hs
  exact ⟨o, _, by
    rw [hkinds, hw, List.append_assoc], .whileLoop he.expression.canonical hwritten, helse⟩

theorem forStmt_succ (hk : c.kind = .keyword .for) (hn : 4 * c.kinds.length + 2 ≤ n + 1)
    (h : (Reader.forStmt (n + 1)).Reads c s d) : s.Taken c d := by
  rw [forStmt_eq] at h
  obtain ⟨_, f, ht, h⟩ := reads_bind.mp h
  obtain ⟨_, g, hopen, h⟩ := reads_bind.mp h
  obtain ⟨initial, i, hi, h⟩ := reads_bind.mp h
  obtain ⟨condition, j, hc, h⟩ := reads_bind.mp h
  obtain ⟨_, k, hsemi, h⟩ := reads_bind.mp h
  obtain ⟨increment, l, hd, h⟩ := reads_bind.mp h
  obtain ⟨_, m, hclose, h⟩ := reads_bind.mp h
  obtain ⟨body, o, hbody, h⟩ := reads_bind.mp h
  obtain ⟨u, hinitial, hu⟩ := hi.forInitial
  obtain ⟨hcondition, hc⟩ := hc.expressionUnless
  obtain ⟨hincrement, hd⟩ := hd.expressionUnless
  have hkinds : c.kinds = Stmt.forTokens u condition increment ++ m.kinds := by
    rw [ht.kinds_advance hk rfl, hopen.kinds_expect, hu, hc, hsemi.kinds_expect, hd,
      hclose.kinds_expect]
    simp [Stmt.forTokens]
  have hfuel := congrArg List.length hkinds
  simp only [List.length_append, Stmt.forTokens, List.length_cons] at hfuel
  obtain ⟨b, w, hw, hwritten, helse⟩ := ih.statement (by omega) hbody
  obtain ⟨hdo, hdo', t, p, rfl⟩ := h.forEnd
  refine ⟨b, _, ?_, .forLoop hinitial hcondition hincrement hwritten, fun hb => hdo' ▸ helse hb⟩
  rw [hkinds, hw, hdo, List.append_assoc]

end StatementSound

private theorem statementSound (n : Nat) : StatementSound n := by
  induction n with
  | zero => constructor <;> intros <;> exact absurd ‹Reads _ _ _ _› not_reads_fail
  | succ n ih =>
    exact {
      declaration := ih.declaration_succ
      declarations := ih.declarations_succ
      block := ih.block_succ
      function := fun _ => ih.function_succ
      methods := ih.methods_succ
      classDecl := ih.classDecl_succ
      statement := ih.statement_succ
      ifStmt := ih.ifStmt_succ
      whileStmt := ih.whileStmt_succ
      forStmt := ih.forStmt_succ }

/-- A program that is read without errors is written as all the tokens. -/
theorem Reads.topLevel {ss : List Stmt} (hn : c.kinds.length + 1 ≤ n) (hc : c.errors = #[])
    (h : (topLevel n).Reads c ss d) : d.kinds = [] ∧ Stmt.DeclaredAll c.kinds ss := by
  induction n generalizing c ss with
  | zero => exact absurd h not_reads_fail
  | succ n ih =>
    change Reads (do
      if ← ask (fun c => c.atEnd || c.tooManyErrors) then pure []
      else
        let s ← attempt nextDeclaration
        let ss ← Reader.topLevel n
        pure (s.toList ++ ss)) _ _ _ at h
    rw [reads_ask_ite] at h
    obtain ⟨hend, h⟩ | ⟨-, h⟩ := h
    · obtain ⟨rfl, rfl⟩ := reads_pure.mp h
      have hkinds : d.kinds = [] := by
        simpa [Cursor.tooManyErrors, hc, Diagnostics.limit, Cursor.atEnd_iff] using hend
      exact ⟨hkinds, hkinds ▸ .nil⟩
    · simp only [reads_bind, reads_pure] at h
      obtain ⟨o, f, ho, ss, g, hss, rfl, rfl⟩ := h
      obtain ⟨s, rfl, hs, hclean⟩ := ho.of_attempt (keeps_nextDeclaration c)
      -- No declaration is empty, so there are fewer tokens for those that follow it.
      obtain ⟨w, hw, hdeclared⟩ := (statementSound (4 * (c.rest.length + 1))).declaration
        (by rw [c.length_kinds]; omega) ⟨hs, hclean⟩
      have hlt := StatementSound.length_lt hw hdeclared.ne_nil
      obtain ⟨hd, hrest⟩ := ih (by omega) (hclean.trans hc) hss
      exact ⟨hd, hw ▸ .cons hdeclared hrest⟩

end Reader

end Lox
