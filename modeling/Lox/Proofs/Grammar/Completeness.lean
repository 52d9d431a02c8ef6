import Lox.Proofs.Grammar.Readable
/-!
# Written statements are read

The words that a statement is written as are read as a statement that is like it, with no error,
unless they end in a conditional without an `else` and an `else` comes after them. So declarations
one after the other are read as they are written, up to a closing brace or the end.
-/

namespace Lox

/-! ### Pieces of statements -/

namespace Reader

variable {n : Nat} {c : Cursor} {k : List TokenKind}

theorem yields_expression {e : Expr} (he : e.Canonical) (hc : c.kinds = e.tokens ++ k)
    (hk : Stops 8 k) : expression.Yields c k (e.Like .any) := by
  have hn : 16 * c.kinds.length + 15 ≤ expressionFuel c := by
    rw [expressionFuel, c.length_kinds]
    omega
  exact ComesTo.congr ((e.readable he).assignment hc hk hn) rfl

theorem yields_expressionUnless {s : Symbol} (hs : (TokenKind.symbol s).beginsExpression = false)
    (hb : (TokenKind.symbol s).binding? = none) {e : Option Expr} (he : ∀ v ∈ e, Expr.Canonical v)
    (hc : c.kinds = Expr.optionTokens e ++ .symbol s :: k) :
    (expressionUnless s).Yields c (.symbol s :: k) (Option.Rel (Expr.Like .any) e) := by
  cases e with
  | none => exact comesTo_isSymbol (Cursor.kind_of_kinds hc) (yields_pure hc .none)
  | some e =>
    have hk : Stops 8 (.symbol s :: k) := stops_cons fun q hq => by
      rw [hb] at hq
      cases hq
    exact comesTo_not_isSymbol (Expr.kind_ne hc hs)
      ((yields_expression (he e rfl) hc hk).bind fun e' d hd he =>
      yields_pure hd (.some he))

private theorem yields_parameters {ps : List Ident} (hne : ps ≠ []) {count : Nat}
    (hlen : count + ps.length ≤ maxArity)
    (hc : c.kinds = separated (ps.map fun p => [p.token]) ++ .symbol .rightParen :: k)
    (hn : c.kinds.length + 1 ≤ n) :
    (parameters n count).Yields c (.symbol .rightParen :: k)
      (List.Forall₂ Likeness.any.Ident ps) := by
  induction ps generalizing n c count with
  | nil => exact absurd rfl hne
  | cons p ps ih =>
    obtain ⟨n, rfl⟩ := Nat.exists_eq_add_of_le' (show 1 ≤ n by omega)
    have hcount : ¬ maxArity ≤ count := by
      rw [List.length_cons] at hlen
      omega
    rw [parameters, if_neg hcount]
    cases ps with
    | nil =>
      have hc : c.kinds = p.token :: .symbol .rightParen :: k := by simpa [separated] using hc
      refine (yields_name _ hc).bind fun x d hd hx => ?_
      exact comesTo_not_eat (by rw [Cursor.kind_of_kinds hd]; simp) (yields_pure hd (.cons hx .nil))
    | cons q ps =>
      have hc : c.kinds = p.token ::
          .symbol .comma ::
            (separated ((q :: ps).map fun p => [p.token]) ++ .symbol .rightParen :: k) := by
        rw [hc, List.map_cons, separated_cons_of_ne_nil _ (by simp)]
        simp
      refine (yields_name _ hc).bind fun x d hd hx => comesTo_eat hd fun d' hd' => ?_
      have hfuel := congrArg List.length hc
      rw [List.length_cons, List.length_cons, ← hd'] at hfuel
      refine (ih (List.cons_ne_nil _ _) ?_ hd' (by omega)).bind fun xs d hd hxs =>
        yields_pure hd (.cons hx hxs)
      simp only [List.length_cons] at hlen ⊢
      omega

private theorem yields_parameterList (sort : String) {ps : List Ident} (hlen : ps.length ≤ maxArity)
    (hc : c.kinds =
      .symbol .leftParen :: (separated (ps.map fun p => [p.token]) ++ .symbol .rightParen :: k)) :
    (parameterList sort).Yields c k (List.Forall₂ Likeness.any.Ident ps) := by
  have hend : ∀ (xs : List Ident) (d : Cursor), d.kinds = .symbol .rightParen :: k →
      List.Forall₂ Likeness.any.Ident ps xs →
      (parametersEnd xs).Yields d k (List.Forall₂ Likeness.any.Ident ps) :=
    fun xs d hd hxs => (yields_expect _ hd).bind fun _ d hd _ => yields_pure hd hxs
  rw [parameterList_eq]
  refine (yields_expect _ hc).bind fun _ d hd _ => ?_
  cases ps with
  | nil => exact comesTo_isSymbol (Cursor.kind_of_kinds hd) (hend [] d hd .nil)
  | cons p ps =>
    have hfirst := hd
    rw [List.map_cons, separated_cons] at hfirst
    refine comesTo_not_isSymbol (by rw [Cursor.kind_of_kinds hfirst]; simp [Ident.token]) ?_
    have hn : d.kinds.length + 1 ≤ d.rest.length + 1 := Nat.le_of_eq (by rw [d.length_kinds])
    have hps :
        someParameters.Yields d (.symbol .rightParen :: k)
          (List.Forall₂ Likeness.any.Ident (p :: ps)) :=
      ComesTo.congr (yields_parameters (List.cons_ne_nil _ _) (by rwa [Nat.zero_add]) hd hn) rfl
    exact hps.bind fun xs d hd hxs => hend xs d hd hxs

private theorem yields_superclass {p : Option Superclass}
    (hc : c.kinds = Superclass.tokens p ++ .symbol .leftBrace :: k) :
    superclass.Yields c (.symbol .leftBrace :: k) (Option.Rel Likeness.any.Superclass p) := by
  rw [superclass]
  cases p with
  | none => exact comesTo_not_eat (by rw [Cursor.kind_of_kinds hc]; simp) (yields_pure hc .none)
  | some p =>
    exact comesTo_eat hc fun d hd => (yields_name _ hd).bind fun x d hd hx =>
      (yields_site _ hd).bind fun s d hd _ =>
      yields_pure hd (.some ⟨Likeness.any_site _ _, hx⟩)

theorem yields_varDecl (t : Span) {x : Ident} {e : Option Expr} (he : ∀ v ∈ e, Expr.Canonical v)
    (hc : c.kinds = Stmt.varTokens x e ++ k) : varDecl.Yields c k ((Stmt.var t x e).Like .any) := by
  rw [varDecl]
  refine (yields_advance hc).bind fun t' d hd _ => (yields_name _ hd).bind fun y d hd hy => ?_
  cases e with
  | none =>
    refine comesTo_not_eat (by rw [Cursor.kind_of_kinds hd]; simp) ?_
    exact (yields_expect _ hd).bind fun _ d hd _ => yields_pure hd (.var trivial hy .none)
  | some e =>
    refine comesTo_eat hd fun d hd => ?_
    have hd : d.kinds = e.tokens ++ .symbol .semicolon :: k := by simpa using hd
    refine Yields.bind (Q := Option.Rel (Expr.Like .any) (some e))
      ((yields_expression (he e rfl) hd (stops_other rfl)).map fun _ => .some) fun v d hd hv => ?_
    exact (yields_expect _ hd).bind fun _ d hd _ => yields_pure hd (.var trivial hy hv)

private theorem yields_forInitial {w : List TokenKind} {i : Option Stmt} (h : Stmt.Initial w i)
    (hc : c.kinds = w ++ k) : forInitial.Yields c k (Option.Rel (Stmt.Like .any) i) := by
  rw [forInitial]
  cases h with
  | none => exact comesTo_eat hc fun d hd => yields_pure hd .none
  | @var t x e he =>
    have hk : c.kind = .keyword .var := Cursor.kind_of_kinds hc
    refine comesTo_not_eat (by rw [hk]; simp) ?_
    refine ComesTo.congr ((yields_varDecl t he hc).map fun s hs => Option.Rel.some hs) ?_
    rw [ask_bind, if_pos (Cursor.isKeyword_iff.mpr hk)]
  | @expr t e he =>
    have hc : c.kinds = e.tokens ++ .symbol .semicolon :: k := by simpa using hc
    refine comesTo_not_eat (Expr.kind_ne hc rfl) ?_
    have hrest : (do
        let e ← expression
        let _ ← expect .semicolon "after loop initializer"
        pure (some (.expr e.span e)) : Reader (Option Stmt)).Yields c k
          (Option.Rel (Stmt.Like .any) (some (.expr t e))) :=
      (yields_expression he hc (stops_other rfl)).bind fun e' d hd he =>
        (yields_expect _ hd).bind fun _ d hd _ =>
        yields_pure hd (.some (.expr trivial he))
    refine ComesTo.congr hrest ?_
    rw [ask_bind, if_neg fun hk => Expr.kind_ne hc rfl (Cursor.isKeyword_iff.mp hk)]

private theorem yields_printStmt (t : Span) {e : Expr} (he : e.Canonical)
    (hc : c.kinds = .keyword .print :: (e.tokens ++ .symbol .semicolon :: k)) :
    printStmt.Yields c k ((Stmt.print t e).Like .any) :=
  (yields_advance hc).bind fun _ _ hd _ =>
    (yields_expression he hd (stops_other rfl)).bind fun _ _ hd he =>
    (yields_expect _ hd).bind fun _ _ hd _ => yields_pure hd (.print trivial he)

private theorem yields_expressionStmt (t : Span) {e : Expr} (he : e.Canonical)
    (hc : c.kinds = e.tokens ++ .symbol .semicolon :: k) :
    expressionStmt.Yields c k ((Stmt.expr t e).Like .any) :=
  (yields_expression he hc (stops_other rfl)).bind fun _ _ hd he =>
    (yields_expect _ hd).bind fun _ _ hd _ => yields_pure hd (.expr trivial he)

private theorem yields_returnStmt (t u : Span) {e : Option Expr} (he : ∀ v ∈ e, Expr.Canonical v)
    (hc : c.kinds = .keyword .return :: (Expr.optionTokens e ++ .symbol .semicolon :: k)) :
    returnStmt.Yields c k ((Stmt.returning t u e).Like .any) :=
  (yields_advance hc).bind fun _ _ hd _ =>
    (yields_expressionUnless rfl rfl he hd).bind fun _ _ hd he =>
    (yields_expect _ hd).bind fun _ _ hd _ => yields_pure hd (.returning trivial trivial he)

theorem Yields.attempt {α : Type} {r : Reader α} {Q : α → Prop} (h : r.Yields c k Q) :
    (attempt r).Yields c k fun o => ∃ a, o = some a ∧ Q a := by
  obtain ⟨a, d, ⟨heq, hclean⟩, hd, ha⟩ := yields_iff.mp h
  refine yields_iff.mpr ⟨some a, d, ⟨?_, hclean⟩, hd, a, rfl, ha⟩
  change (some (r c).1, (r c).2) = _
  rw [heq]

/-- The condition in parentheses after the first word of a statement. -/
theorem yields_head {w : Keyword} {e : Expr} (he : e.Canonical)
    (hc : c.kinds = Stmt.headTokens w e ++ k) {place place' : String}
    {f : Span → Expr → Reader Stmt} {Q : Stmt → Prop} {k' : List TokenKind}
    (hf : ∀ t e' d, d.kinds = k → d.errors = c.errors → e.Like .any e' → (f t e').Yields d k' Q) :
    (do
      let start ← advance
      let _ ← expect .leftParen place
      let condition ← expression
      let _ ← expect .rightParen place'
      f start condition : Reader Stmt).Yields c k' Q := by
  have hc : c.kinds = .keyword w :: .symbol .leftParen ::
      (e.tokens ++ .symbol .rightParen :: k) := by
    rw [hc]
    simp [Stmt.headTokens]
  refine (yields_advance hc).step fun t d hd h₁ _ => (yields_expect _ hd).step fun _ d hd h₂ _ => ?_
  refine (yields_expression he hd (stops_other rfl)).step fun e' d hd h₃ he' => ?_
  refine (yields_expect _ hd).step fun _ d hd h₄ _ => hf t e' d hd ?_ he'
  rw [h₄, h₃, h₂, h₁]

/-- What reads a statement that starts with a token of the kind. -/
def statementOf (n : Nat) : TokenKind → Reader Stmt
  | .keyword .print => printStmt
  | .keyword .if => ifStmt n
  | .keyword .while => whileStmt n
  | .keyword .for => forStmt n
  | .keyword .return => returnStmt
  | .symbol .leftBrace => do
    let (body, span) ← block n
    pure (.block span body)
  | _ => expressionStmt

theorem statement_eq (n : Nat) (c : Cursor) : statement (n + 1) c = statementOf n c.kind c := by
  rw [statement]
  rfl

private theorem statementOf_of_begins {t : TokenKind} (h : t.beginsExpression = true) :
    statementOf n t = expressionStmt := by
  unfold statementOf
  split <;> first | cases h | rfl

theorem yields_ifEnd {t u : Span} {e e' : Expr} {s s' : Stmt} {o o' : Option Stmt}
    (he : e.Like .any e') (hs : s.Like .any s') (ho : Option.Rel (Stmt.Like .any) o o')
    (hc : c.kinds = k) : (ifEnd t e' s' o').Yields c k ((Stmt.ifElse u e s o).Like .any) :=
  (yields_previous hc).bind fun _ _ hd _ => yields_pure hd (.ifElse trivial he hs ho)

private theorem yields_forEnd {t u v : Span} {p : Site} {i i' : Option Stmt}
    {e e' d d' : Option Expr} {s s' : Stmt} (hi : Option.Rel (Stmt.Like .any) i i')
    (he : Option.Rel (Expr.Like .any) e e') (hd : Option.Rel (Expr.Like .any) d d')
    (hs : s.Like .any s') (hc : c.kinds = k) :
    (forEnd t i' u d' s' e').Yields c k
      ((Stmt.forLoop v i (e.getD (.literal p (.bool true))) d s).Like .any) := by
  cases he with
  | some he =>
    exact (yields_previous hc).bind fun _ _ hf _ =>
      yields_pure hf (Stmt.forLoop_like trivial hi he hd hs)
  | none =>
    exact (yields_previous hc).bind fun _ _ hf _ => (yields_site _ hf).bind fun _ _ hf _ =>
      yields_pure hf (Stmt.forLoop_like trivial hi (.literal (Likeness.any_site _ _)) hd hs)

end Reader

/-! ### What comes after a statement -/

/-- The word does not go on with an `else`. -/
def NoElse (w : List TokenKind) : Prop := w.head? ≠ some (.keyword .else)

/-- The word is at a closing brace or at the end. -/
def Closing (w : List TokenKind) : Prop := ∀ t ∈ w.head?, t = .symbol .rightBrace

theorem closing_brace (w : List TokenKind) : Closing (.symbol .rightBrace :: w) := by
  rintro _ ⟨⟩
  rfl

theorem Closing.isSymbol_or_atEnd {w : List TokenKind} (h : Closing w) {c : Cursor}
    (hc : c.kinds = w) : (c.isSymbol .rightBrace || c.atEnd) = true := by
  rw [Bool.or_eq_true, Cursor.isSymbol_iff, Cursor.atEnd_iff, hc]
  cases w with
  | nil => exact .inr rfl
  | cons t w => exact .inl ((Cursor.kind_of_kinds hc).trans (h t rfl))

theorem Cursor.not_isSymbol_or_atEnd {t : TokenKind} {w : List TokenKind} {c : Cursor}
    (hc : c.kinds = t :: w) (ht : t ≠ .symbol .rightBrace) :
    (c.isSymbol .rightBrace || c.atEnd) = false := by
  rw [Bool.or_eq_false_iff, ← Bool.not_eq_true, ← Bool.not_eq_true, isSymbol_iff, atEnd_iff,
    kind_of_kinds hc, hc]
  exact ⟨ht, List.cons_ne_nil _ _⟩

theorem Closing.noElse {w : List TokenKind} (h : Closing w) : NoElse w := fun hw => nomatch h _ hw

private theorem Cursor.kind_ne_else {c : Cursor} (h : NoElse c.kinds) :
    c.kind ≠ .keyword .else := by
  intro hk
  have hkinds := kinds_of_kind hk rfl
  rw [NoElse, hkinds] at h
  exact h rfl

/-- The tokens that declarations begin with are among these. -/
structure TokenKind.BeginsDeclaration (t : TokenKind) : Prop where
  brace : t ≠ .symbol .rightBrace
  noElse : t ≠ .keyword .else

/-- The tokens that statements begin with are among these. -/
structure TokenKind.BeginsStatement (t : TokenKind) : Prop extends t.BeginsDeclaration where
  cls : t ≠ .keyword .cls
  function : t ≠ .keyword .fun
  var : t ≠ .keyword .var

theorem Stmt.Written.exists_cons {o : Bool} {w : List TokenKind} {s : Stmt}
    (h : Stmt.Written o w s) : ∃ t v, w = t :: v ∧ t.BeginsStatement := by
  cases h with
  | @expr _ e =>
    obtain ⟨t, v, hv, ht⟩ := e.exists_tokens_eq_cons
    refine ⟨t, _, by rw [hv]; rfl, ⟨?_, ?_⟩, ?_, ?_, ?_⟩ <;> rintro rfl <;> cases ht
  | print | returning | block | ifThen | ifElse | whileLoop | forLoop =>
    exact ⟨_, _, rfl, ⟨nofun, nofun⟩, nofun, nofun, nofun⟩

theorem Stmt.Declared.exists_cons {w : List TokenKind} {s : Stmt} (h : Stmt.Declared w s) :
    ∃ t v, w = t :: v ∧ t.BeginsDeclaration := by
  cases h with
  | statement hs =>
    obtain ⟨t, v, hw, ht⟩ := hs.exists_cons
    exact ⟨t, v, hw, ht.toBeginsDeclaration⟩
  | var | function | classDecl => exact ⟨_, _, rfl, nofun, nofun⟩

theorem FunctionDecl.Written.exists_cons {w : List TokenKind} {f : FunctionDecl}
    (h : FunctionDecl.Written w f) : ∃ t v, w = t :: v ∧ t ≠ .symbol .rightBrace := by
  cases h
  exact ⟨_, _, rfl, nofun⟩

theorem Stmt.DeclaredAll.noElse {w k : List TokenKind} {ss : List Stmt} (h : Stmt.DeclaredAll w ss)
    (hk : Closing k) : NoElse (w ++ k) := by
  cases h with
  | nil => exact hk.noElse
  | cons hs _ =>
    obtain ⟨t, v, rfl, ht⟩ := hs.exists_cons
    exact fun h => ht.noElse (Option.some.inj h)

/-! ### Statements and declarations -/

/-- The word is read as a statement like `s`, unless it ends in a conditional without an `else` and
an `else` comes next. -/
def Stmt.ReadAs (o : Bool) (w : List TokenKind) (s : Stmt) : Prop :=
  ∀ ⦃n c k⦄, Cursor.kinds c = w ++ k → c.tooManyErrors = false → (o = true → NoElse k) →
    4 * c.kinds.length + 3 ≤ n → (Reader.statement n).Yields c k (s.Like .any)

/-- The word is read as a declaration like `s`. -/
def Stmt.DeclaredAs (w : List TokenKind) (s : Stmt) : Prop :=
  ∀ ⦃n c k⦄, Cursor.kinds c = w ++ k → c.tooManyErrors = false → NoElse k →
    4 * c.kinds.length + 4 ≤ n → (Reader.declaration n).Yields c k (s.Like .any)

def Stmt.DeclaredAllAs (w : List TokenKind) (ss : List Stmt) : Prop :=
  ∀ ⦃n c k⦄, Cursor.kinds c = w ++ k → c.tooManyErrors = false → Closing k →
    4 * c.kinds.length + 5 ≤ n →
    (Reader.declarations n).Yields c k (List.Forall₂ (Stmt.Like .any) ss)

def FunctionDecl.ReadAs (w : List TokenKind) (f : FunctionDecl) : Prop :=
  ∀ ⦃n c k⦄ (sort : String), Cursor.kinds c = w ++ k → c.tooManyErrors = false →
    4 * c.kinds.length + 3 ≤ n → (Reader.function n sort).Yields c k (f.Like .any)

def FunctionDecl.AllReadAs (w : List TokenKind) (fs : List FunctionDecl) : Prop :=
  ∀ ⦃n c k⦄, Cursor.kinds c = w ++ k → c.tooManyErrors = false → Closing k →
    4 * c.kinds.length + 4 ≤ n →
    (Reader.methods n).Yields c k (List.Forall₂ (FunctionDecl.Like .any) fs)

open Reader

theorem Cursor.tooManyErrors_eq {c d : Cursor} (h : d.errors = c.errors) :
    d.tooManyErrors = c.tooManyErrors := by
  rw [tooManyErrors, tooManyErrors, h]

namespace Stmt

variable {o : Bool} {w v : List TokenKind} {s : Stmt}

theorem ReadAs.expr (t : Span) {e : Expr} (he : e.Canonical) :
    (Stmt.expr t e).ReadAs false (e.tokens ++ [.symbol .semicolon]) := by
  intro n c k hc _ _ hn
  obtain ⟨n, rfl⟩ := Nat.exists_eq_add_of_le' (show 1 ≤ n by omega)
  rw [List.append_assoc] at hc
  refine ComesTo.congr (yields_expressionStmt t he hc) ?_
  rw [statement_eq, statementOf_of_begins (Expr.beginsExpression_kind hc)]

theorem ReadAs.print (t : Span) {e : Expr} (he : e.Canonical) :
    (Stmt.print t e).ReadAs false (.keyword .print :: (e.tokens ++ [.symbol .semicolon])) := by
  intro n c k hc _ _ hn
  obtain ⟨n, rfl⟩ := Nat.exists_eq_add_of_le' (show 1 ≤ n by omega)
  rw [List.cons_append, List.append_assoc] at hc
  refine ComesTo.congr (yields_printStmt t he hc) ?_
  rw [statement_eq, Cursor.kind_of_kinds hc, statementOf]

theorem ReadAs.returning (t u : Span) {e : Option Expr} (he : ∀ v ∈ e, Expr.Canonical v) :
    (Stmt.returning t u e).ReadAs false (.keyword .return ::
      (Expr.optionTokens e ++ [.symbol .semicolon])) := by
  intro n c k hc _ _ hn
  obtain ⟨n, rfl⟩ := Nat.exists_eq_add_of_le' (show 1 ≤ n by omega)
  rw [List.cons_append, List.append_assoc] at hc
  refine ComesTo.congr (yields_returnStmt t u he hc) ?_
  rw [statement_eq, Cursor.kind_of_kinds hc, statementOf]

/-- Declarations in braces. -/
theorem yields_block {b : List Stmt} (hb : Stmt.DeclaredAllAs w b) {n : Nat} {c : Cursor}
    {k : List TokenKind} (hc : c.kinds = .symbol .leftBrace :: (w ++ .symbol .rightBrace :: k))
    (hok : c.tooManyErrors = false) (hn : 4 * c.kinds.length + 2 ≤ n) :
    (Reader.block n).Yields c k fun b' => List.Forall₂ (Stmt.Like .any) b b'.1 := by
  obtain ⟨n, rfl⟩ := Nat.exists_eq_add_of_le' (show 1 ≤ n by omega)
  have hlen := congrArg List.length hc
  rw [List.length_cons] at hlen
  rw [Reader.block]
  refine (yields_expect _ hc).step fun _ d hd herr _ => ?_
  refine (hb hd (Cursor.tooManyErrors_eq herr ▸ hok) (closing_brace k) (by rw [hd]; omega)).bind
    fun b' d hd hb' => ?_
  exact (yields_expect _ hd).bind fun _ d hd _ => yields_pure hd hb'

theorem ReadAs.block (t : Span) {b : List Stmt} (hb : Stmt.DeclaredAllAs w b) :
    (Stmt.block t b).ReadAs false (.symbol .leftBrace :: (w ++ [.symbol .rightBrace])) := by
  intro n c k hc hok _ hn
  obtain ⟨n, rfl⟩ := Nat.exists_eq_add_of_le' (show 1 ≤ n by omega)
  rw [List.cons_append, List.append_assoc] at hc
  have hrest : (do
      let (body, span) ← Reader.block n
      pure (.block span body) : Reader Stmt).Yields c k ((Stmt.block t b).Like .any) :=
    (yields_block hb hc hok (by omega)).bind fun b' d hd hb' => yields_pure hd (.block trivial hb')
  refine ComesTo.congr hrest ?_
  rw [statement_eq, Cursor.kind_of_kinds hc, statementOf]

theorem ReadAs.ifThen (t : Span) {e : Expr} (he : e.Canonical) (hs : s.ReadAs o w) :
    (Stmt.ifElse t e s none).ReadAs true (headTokens .if e ++ w) := by
  intro n c k hc hok ho hn
  obtain ⟨n, rfl⟩ := Nat.exists_eq_add_of_le' (show 2 ≤ n by omega)
  rw [List.append_assoc] at hc
  have hlen := congrArg List.length hc
  rw [List.length_append, headTokens, List.length_cons] at hlen
  have hrest : (Reader.ifStmt (n + 1)).Yields c k ((Stmt.ifElse t e s none).Like .any) := by
    rw [ifStmt_eq]
    refine yields_head he hc fun u e' d hd herr he' => ?_
    refine (hs hd (Cursor.tooManyErrors_eq herr ▸ hok) (fun _ => ho rfl) (by rw [hd]; omega)).bind
      fun s' d hd hs' => ?_
    exact comesTo_not_eatKeyword (Cursor.kind_ne_else (hd ▸ ho rfl)) (yields_ifEnd he' hs' .none hd)
  refine ComesTo.congr hrest ?_
  rw [statement_eq, Cursor.kind_of_kinds hc, statementOf]

theorem ReadAs.ifElse (t : Span) {e : Expr} (he : e.Canonical) (hs : s.ReadAs false v) {m : Stmt}
    (hm : m.ReadAs o w) :
    (Stmt.ifElse t e s (some m)).ReadAs o (headTokens .if e ++ (v ++ .keyword .else :: w)) := by
  intro n c k hc hok ho hn
  obtain ⟨n, rfl⟩ := Nat.exists_eq_add_of_le' (show 2 ≤ n by omega)
  rw [List.append_assoc, List.append_assoc, List.cons_append] at hc
  have hlen := congrArg List.length hc
  simp only [headTokens, List.length_append, List.length_cons] at hlen
  have hrest : (Reader.ifStmt (n + 1)).Yields c k ((Stmt.ifElse t e s (some m)).Like .any) := by
    rw [ifStmt_eq]
    refine yields_head he hc fun u e' d hd herr he' => ?_
    have hfuel : 4 * d.kinds.length + 3 ≤ n := by
      simp only [hd, List.length_append, List.length_cons]
      omega
    -- The first branch is closed, so it may stand before the `else` that is not its own.
    refine (hs hd (Cursor.tooManyErrors_eq herr ▸ hok)
      (fun hopen => absurd hopen Bool.false_ne_true) hfuel).step
      fun s' f hf herr' hs' => ?_
    refine comesTo_eatKeyword hf fun g hg herr'' => ?_
    have hok' : g.tooManyErrors = false := by
      rw [Cursor.tooManyErrors_eq herr'', Cursor.tooManyErrors_eq herr',
        Cursor.tooManyErrors_eq herr, hok]
    refine Yields.bind (Q := Option.Rel (Stmt.Like .any) (some m))
      ((hm hg hok' ho (by rw [hg, List.length_append]; omega)).map fun _ => .some)
        fun m' d hd hm' => ?_
    exact yields_ifEnd he' hs' hm' hd
  refine ComesTo.congr hrest ?_
  rw [statement_eq, Cursor.kind_of_kinds hc, statementOf]

theorem ReadAs.whileLoop (t : Span) {e : Expr} (he : e.Canonical) (hs : s.ReadAs o w) :
    (Stmt.whileLoop t e s).ReadAs o (headTokens .while e ++ w) := by
  intro n c k hc hok ho hn
  obtain ⟨n, rfl⟩ := Nat.exists_eq_add_of_le' (show 2 ≤ n by omega)
  rw [List.append_assoc] at hc
  have hlen := congrArg List.length hc
  rw [List.length_append, headTokens, List.length_cons] at hlen
  have hrest : (Reader.whileStmt (n + 1)).Yields c k ((Stmt.whileLoop t e s).Like .any) := by
    rw [Reader.whileStmt]
    refine yields_head he hc fun u e' d hd herr he' => ?_
    refine (hs hd (Cursor.tooManyErrors_eq herr ▸ hok) ho (by rw [hd]; omega)).bind
      fun s' d hd hs' => ?_
    exact (yields_previous hd).bind fun _ d hd _ => yields_pure hd (.whileLoop trivial he' hs')
  refine ComesTo.congr hrest ?_
  rw [statement_eq, Cursor.kind_of_kinds hc, statementOf]

theorem ReadAs.forLoop (t : Span) (p : Site) {i : Option Stmt} {e d : Option Expr}
    (hi : Stmt.Initial v i) (he : ∀ x ∈ e, Expr.Canonical x) (hd : ∀ x ∈ d, Expr.Canonical x)
    (hs : s.ReadAs o w) :
    (Stmt.forLoop t i (e.getD (.literal p (.bool true))) d s).ReadAs o (forTokens v e d ++ w) := by
  intro n c k hc hok ho hn
  obtain ⟨n, rfl⟩ := Nat.exists_eq_add_of_le' (show 2 ≤ n by omega)
  have hc : c.kinds = .keyword .for :: .symbol .leftParen :: (v ++ (Expr.optionTokens e ++
      .symbol .semicolon :: (Expr.optionTokens d ++ .symbol .rightParen :: (w ++ k)))) := by
    rw [hc]
    simp [forTokens]
  have hlen := congrArg List.length hc
  simp only [List.length_append, List.length_cons] at hlen
  have hrest : (Reader.forStmt (n + 1)).Yields c k
      ((Stmt.forLoop t i (e.getD (.literal p (.bool true))) d s).Like .any) := by
    rw [forStmt_eq]
    refine (yields_advance hc).step fun t f hf h₁ _ =>
      (yields_expect _ hf).step fun _ f hf h₂ _ => ?_
    refine (yields_forInitial hi hf).step fun i' f hf h₃ hi => ?_
    refine (yields_expressionUnless rfl rfl he hf).step fun e' f hf h₄ he => ?_
    refine (yields_expect _ hf).step fun u f hf h₅ _ => ?_
    refine (yields_expressionUnless rfl rfl hd hf).step fun d' f hf h₆ hd => ?_
    refine (yields_expect _ hf).step fun _ f hf h₇ _ => ?_
    have herr : f.errors = c.errors := by rw [h₇, h₆, h₅, h₄, h₃, h₂, h₁]
    have hfuel : 4 * f.kinds.length + 3 ≤ n := by
      rw [hf, List.length_append]
      omega
    exact (hs hf (Cursor.tooManyErrors_eq herr ▸ hok) ho hfuel).bind fun s' f hf hs =>
      yields_forEnd hi he hd hs hf
  refine ComesTo.congr hrest ?_
  rw [statement_eq, Cursor.kind_of_kinds hc, statementOf]

/-! ### Declarations -/

theorem yields_declaration {n : Nat} {c : Cursor} {k : List TokenKind} {Q : Stmt → Prop}
    (h : (StatementRuns.declarationOf n c.kind).Yields c k Q) :
    (Reader.declaration (n + 1)).Yields c k Q := by
  obtain ⟨a, d, ⟨heq, hclean⟩, hd, ha⟩ := yields_iff.mp h
  exact yields_iff.mpr ⟨a, d, ⟨by rw [StatementRuns.declaration_eq, heq]; rfl, hclean⟩, hd, ha⟩

theorem DeclaredAs.statement (hw : Stmt.Written o w s) (hs : s.ReadAs o w) : s.DeclaredAs w := by
  intro n c k hc hok hk hn
  obtain ⟨n, rfl⟩ := Nat.exists_eq_add_of_le' (show 1 ≤ n by omega)
  obtain ⟨t, v, rfl, ht⟩ := hw.exists_cons
  refine yields_declaration ?_
  have hstatement : StatementRuns.declarationOf n c.kind = Reader.statement n := by
    rw [Cursor.kind_of_kinds hc]
    unfold StatementRuns.declarationOf
    split
    · exact absurd rfl ht.cls
    · exact absurd rfl ht.function
    · exact absurd rfl ht.var
    · rfl
  rw [hstatement]
  exact hs hc hok (fun _ => hk) (by omega)

theorem DeclaredAs.var (t : Span) {x : Ident} {e : Option Expr} (he : ∀ v ∈ e, Expr.Canonical v) :
    (Stmt.var t x e).DeclaredAs (varTokens x e) := by
  intro n c k hc _ _ hn
  obtain ⟨n, rfl⟩ := Nat.exists_eq_add_of_le' (show 1 ≤ n by omega)
  refine yields_declaration ?_
  rw [Cursor.kind_of_kinds hc]
  exact yields_varDecl t he hc

theorem DeclaredAs.function {f : FunctionDecl} (hf : f.ReadAs w) :
    (Stmt.function f).DeclaredAs (.keyword .fun :: w) := by
  intro n c k hc hok _ hn
  obtain ⟨n, rfl⟩ := Nat.exists_eq_add_of_le' (show 1 ≤ n by omega)
  have hlen := congrArg List.length hc
  rw [List.cons_append, List.length_cons] at hlen
  refine yields_declaration ?_
  rw [Cursor.kind_of_kinds hc]
  refine (yields_advance hc).step fun _ d hd herr _ => ?_
  exact (hf _ hd (Cursor.tooManyErrors_eq herr ▸ hok) (by rw [hd, List.append_eq]; omega)).bind
    fun _ _ hd hf => yields_pure hd (.function hf)

theorem DeclaredAs.classDecl (t : Span) {x : Ident} {p : Option Superclass} {fs : List FunctionDecl}
    (hfs : FunctionDecl.AllReadAs w fs) :
    (Stmt.classDecl t x p fs).DeclaredAs (classTokens x p w) := by
  intro n c k hc hok _ hn
  obtain ⟨n, rfl⟩ := Nat.exists_eq_add_of_le' (show 2 ≤ n by omega)
  have hc : c.kinds = .keyword .cls :: x.token ::
      (Superclass.tokens p ++ .symbol .leftBrace :: (w ++ .symbol .rightBrace :: k)) := by
    rw [hc]
    simp [classTokens]
  have hlen := congrArg List.length hc
  simp only [List.length_cons, List.length_append] at hlen
  refine yields_declaration ?_
  rw [Cursor.kind_of_kinds hc]
  change (Reader.classDecl (n + 1)).Yields _ _ _
  rw [Reader.classDecl]
  refine (yields_advance hc).step fun _ d hd h₁ _ => (yields_name _ hd).step fun x' d hd h₂ hx => ?_
  refine (yields_superclass hd).step fun p' d hd h₃ hp =>
    (yields_expect _ hd).step fun _ d hd h₄ _ => ?_
  have herr : d.errors = c.errors := by rw [h₄, h₃, h₂, h₁]
  have hfuel : 4 * d.kinds.length + 4 ≤ n := by
    simp only [hd, List.length_append, List.length_cons]
    omega
  refine (hfs hd (Cursor.tooManyErrors_eq herr ▸ hok) (closing_brace k) hfuel).bind
    fun fs' d hd hfs => ?_
  exact (yields_expect _ hd).bind fun _ _ hd _ => yields_pure hd (.classDecl trivial hx hp hfs)

/-! ### Declarations one after the other -/

theorem DeclaredAllAs.nil : DeclaredAllAs [] [] := by
  intro n c k hc _ hk hn
  obtain ⟨n, rfl⟩ := Nat.exists_eq_add_of_le' (show 1 ≤ n by omega)
  have hstop : (c.isSymbol .rightBrace || c.atEnd || c.tooManyErrors) = true := by
    rw [hk.isSymbol_or_atEnd hc, Bool.true_or]
  refine ComesTo.congr (yields_pure hc .nil) ?_
  rw [Reader.declarations, ask_bind, if_pos hstop]

theorem DeclaredAllAs.cons {ss : List Stmt} (hw : Stmt.Declared w s) (hs : s.DeclaredAs w)
    (hv : Stmt.DeclaredAll v ss) (hss : DeclaredAllAs v ss) : DeclaredAllAs (w ++ v) (s :: ss) := by
  intro n c k hc hok hk hn
  obtain ⟨n, rfl⟩ := Nat.exists_eq_add_of_le' (show 1 ≤ n by omega)
  rw [List.append_assoc] at hc
  have hlen := congrArg List.length hc
  have hpos := List.length_pos_iff.mpr hw.ne_nil
  rw [List.length_append] at hlen
  have hgo : (c.isSymbol .rightBrace || c.atEnd || c.tooManyErrors) = false := by
    obtain ⟨t, u, rfl, ht⟩ := hw.exists_cons
    rw [hok, Bool.or_false]
    exact Cursor.not_isSymbol_or_atEnd hc ht.brace
  refine ComesTo.congr (s := do
    let s ← attempt (Reader.declaration n)
    let ss ← Reader.declarations n
    pure (s.toList ++ ss)) ?_ ?_
  · refine (hs hc hok (hv.noElse hk) (by omega)).attempt.step fun o d hd herr ho => ?_
    obtain ⟨s', rfl, hs'⟩ := ho
    exact (hss hd (Cursor.tooManyErrors_eq herr ▸ hok) hk (by rw [hd]; omega)).bind
      fun ss' d hd hss' => yields_pure hd (.cons hs' hss')
  · rw [Reader.declarations, ask_bind, hgo, if_neg Bool.false_ne_true]

end Stmt

namespace FunctionDecl

variable {w v : List TokenKind}

theorem ReadAs.mk (x : Ident) {ps : List Ident} {b : List Stmt} (t : Span)
    (hlen : ps.length ≤ maxArity) (hb : Stmt.DeclaredAllAs w b) :
    (FunctionDecl.mk x ps b t).ReadAs (tokensWith x ps w) := by
  intro n c k sort hc hok hn
  obtain ⟨n, rfl⟩ := Nat.exists_eq_add_of_le' (show 1 ≤ n by omega)
  have hc : c.kinds = x.token :: .symbol .leftParen :: (separated (ps.map fun p => [p.token]) ++
      .symbol .rightParen :: .symbol .leftBrace :: (w ++ .symbol .rightBrace :: k)) := by
    rw [hc]
    simp [tokensWith]
  have hfuel := congrArg List.length hc
  simp only [List.length_cons, List.length_append] at hfuel
  rw [Reader.function]
  refine (yields_name _ hc).step fun x' d hd h₁ hx =>
    (yields_parameterList sort hlen hd).step fun ps' d hd h₂ hps => ?_
  have herr : d.errors = c.errors := by rw [h₂, h₁]
  refine comesTo_isSymbol (Cursor.kind_of_kinds hd) ?_
  refine (Stmt.yields_block hb hd (Cursor.tooManyErrors_eq herr ▸ hok) ?_).bind fun b' d hd hb => ?_
  · simp only [hd, List.length_cons, List.length_append]
    omega
  · exact yields_pure hd (.mk hx hps hb trivial)

theorem AllReadAs.nil : AllReadAs [] [] := by
  intro n c k hc _ hk hn
  obtain ⟨n, rfl⟩ := Nat.exists_eq_add_of_le' (show 1 ≤ n by omega)
  refine ComesTo.congr (yields_pure hc .nil) ?_
  rw [Reader.methods, ask_bind, if_pos (hk.isSymbol_or_atEnd hc)]

theorem AllReadAs.cons {f : FunctionDecl} {fs : List FunctionDecl} (hw : FunctionDecl.Written w f)
    (hf : f.ReadAs w) (hfs : AllReadAs v fs) : AllReadAs (w ++ v) (f :: fs) := by
  intro n c k hc hok hk hn
  obtain ⟨n, rfl⟩ := Nat.exists_eq_add_of_le' (show 1 ≤ n by omega)
  rw [List.append_assoc] at hc
  have hlen := congrArg List.length hc
  have hpos := List.length_pos_iff.mpr hw.ne_nil
  rw [List.length_append] at hlen
  have hgo : (c.isSymbol .rightBrace || c.atEnd) = false := by
    obtain ⟨t, u, rfl, ht⟩ := hw.exists_cons
    exact Cursor.not_isSymbol_or_atEnd hc ht
  refine ComesTo.congr (s := do
    let f ← Reader.function n "method"
    let fs ← Reader.methods n
    pure (f :: fs)) ?_ ?_
  · refine (hf _ hc hok (by omega)).step fun f' d hd herr hf' => ?_
    exact (hfs hd (Cursor.tooManyErrors_eq herr ▸ hok) hk (by rw [hd]; omega)).bind
      fun fs' d hd hfs' => yields_pure hd (.cons hf' hfs')
  · rw [Reader.methods, ask_bind, hgo, if_neg Bool.false_ne_true]

end FunctionDecl

mutual

theorem Stmt.Written.readAs {o : Bool} {w : List TokenKind} {s : Stmt} :
    Stmt.Written o w s → s.ReadAs o w
  | .expr he => .expr _ he
  | .print he => .print _ he
  | .returning he => .returning _ _ he
  | .block hb => .block _ hb.declaredAllAs
  | .ifThen he hs => .ifThen _ he hs.readAs
  | .ifElse he hs hm => .ifElse _ he hs.readAs hm.readAs
  | .whileLoop he hs => .whileLoop _ he hs.readAs
  | .forLoop hi he hd hs => .forLoop _ _ hi he hd hs.readAs

theorem Stmt.Declared.declaredAs {w : List TokenKind} {s : Stmt} :
    Stmt.Declared w s → s.DeclaredAs w
  | .statement hs => .statement hs hs.readAs
  | .var he => .var _ he
  | .function hf => .function hf.readAs
  | .classDecl hfs => .classDecl _ hfs.allReadAs

theorem Stmt.DeclaredAll.declaredAllAs {w : List TokenKind} {ss : List Stmt} :
    Stmt.DeclaredAll w ss → Stmt.DeclaredAllAs w ss
  | .nil => .nil
  | .cons hs hss => .cons hs hs.declaredAs hss hss.declaredAllAs

theorem FunctionDecl.Written.readAs {w : List TokenKind} {f : FunctionDecl} :
    FunctionDecl.Written w f → f.ReadAs w
  | .mk hlen hb => .mk _ _ hlen hb.declaredAllAs

theorem FunctionDecl.WrittenAll.allReadAs {w : List TokenKind} {fs : List FunctionDecl} :
    FunctionDecl.WrittenAll w fs → FunctionDecl.AllReadAs w fs
  | .nil => .nil
  | .cons hf hfs => .cons hf hf.readAs hfs.allReadAs

end

/-- A program is read as it is written. -/
theorem Reader.yields_topLevel {ss : List Stmt} {w : List TokenKind} (hw : Stmt.DeclaredAll w ss)
    {n : Nat} {c : Cursor} (hc : c.kinds = w) (hok : c.tooManyErrors = false)
    (hn : c.kinds.length + 1 ≤ n) :
    (topLevel n).Yields c [] (List.Forall₂ (Stmt.Like .any) ss) := by
  induction ss generalizing w n c with
  | nil =>
    cases hw
    obtain ⟨n, rfl⟩ := Nat.exists_eq_add_of_le' (show 1 ≤ n by omega)
    refine ComesTo.congr (yields_pure hc .nil) (topLevel_stop ?_)
    rw [Cursor.atEnd_iff.mpr hc, Bool.true_or]
  | cons s ss ih =>
    cases hw with
    | @cons w _ v _ hs hss =>
      obtain ⟨n, rfl⟩ := Nat.exists_eq_add_of_le' (show 1 ≤ n by omega)
      have hlen := congrArg List.length hc
      have hpos := List.length_pos_iff.mpr hs.ne_nil
      rw [List.length_append] at hlen
      have hgo : (c.atEnd || c.tooManyErrors) = false := by
        rw [hok, Bool.or_false, ← Bool.not_eq_true, Cursor.atEnd_iff, hc]
        exact List.append_ne_nil_of_left_ne_nil hs.ne_nil v
      have hnext : NoElse v := by
        have hnoElse := hss.noElse (k := []) nofun
        rwa [List.append_nil] at hnoElse
      have hfuel : 4 * c.kinds.length + 4 ≤ 4 * (c.rest.length + 1) := by
        rw [c.length_kinds]
        omega
      have hdeclaration : nextDeclaration.Yields c v (s.Like .any) :=
        ComesTo.congr (hs.declaredAs hc hok hnext hfuel) rfl
      refine ComesTo.congr (s := do
        let s ← Reader.attempt nextDeclaration
        let ss ← topLevel n
        pure (s.toList ++ ss)) ?_ ?_
      · refine hdeclaration.attempt.step fun o d hd herr ho => ?_
        obtain ⟨s', rfl, hs'⟩ := ho
        exact (ih hss hd (Cursor.tooManyErrors_eq herr ▸ hok) (by rw [hd]; omega)).bind
          fun ss' d hd hss' => yields_pure hd (.cons hs' hss')
      · rw [topLevel, ask_bind, hgo, if_neg Bool.false_ne_true]
        rfl

end Lox
