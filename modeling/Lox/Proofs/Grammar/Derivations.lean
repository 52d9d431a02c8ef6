import Lox.Proofs.Grammar.Rules
import Lox.Proofs.Grammar.Spelling
/-!
# What the grammar derives

The words of the grammar are those that trees are written as. Where the grammar is ambiguous, a word
has a tree in which each `else` belongs to the nearest conditional: an `else` after a statement that
ends in a conditional without one is taken into it.
-/

namespace Lox

open Rule Phrase

variable {w : List TokenKind}

instance : Inhabited Span := ⟨.point .start⟩

instance : Inhabited Site := ⟨⟨0, default⟩⟩

/-! ### Lists -/

theorem Expr.tokensAll_eq_map (es : List Expr) : Expr.tokensAll es = es.map Expr.tokens := by
  induction es with
  | nil => rfl
  | cons e es ih => rw [tokensAll, ih, List.map_cons]

private theorem Expr.canonicalAll_iff {es : List Expr} :
    Expr.CanonicalAll es ↔ ∀ e ∈ es, e.Canonical := by
  induction es with
  | nil => simp [CanonicalAll]
  | cons e es ih => rw [CanonicalAll, ih, List.forall_mem_cons]

theorem separated_cons (w : List TokenKind) (ws : List (List TokenKind)) :
    separated (w :: ws) = w ++ (ws.map (TokenKind.symbol .comma :: ·)).flatten := by
  unfold separated
  induction ws generalizing w with
  | nil => simp
  | cons v ws ih => simp [ih v]

theorem separated_cons_of_ne_nil (w : List TokenKind) {ws : List (List TokenKind)} (h : ws ≠ []) :
    separated (w :: ws) = w ++ .symbol .comma :: separated ws := by
  cases ws with
  | nil => exact absurd rfl h
  | cons v ws => simp [separated_cons]

/-- Words of one shape are the words of a list of things. -/
theorem exists_map_eq {α β : Type} {P : α → Prop} {f : α → β} {ws : List β}
    (h : ∀ w ∈ ws, ∃ a, P a ∧ w = f a) : ∃ as : List α, (∀ a ∈ as, P a) ∧ ws = as.map f := by
  induction ws with
  | nil => exact ⟨[], nofun, rfl⟩
  | cons w ws ih =>
    obtain ⟨a, ha, rfl⟩ := h w List.mem_cons_self
    obtain ⟨as, has, rfl⟩ := ih fun v hv => h v (List.mem_cons_of_mem _ hv)
    exact ⟨a :: as, List.forall_mem_cons.mpr ⟨ha, has⟩, rfl⟩

/-! ### Operators between two operands -/

namespace Level

def toRule : Level → Rule
  | or => .logicOr
  | and => .logicAnd
  | equality => .equality
  | comparison => .comparison
  | term => .term
  | factor => .factor

/-- The rule of the operands of a level. -/
def operandRule : Level → Rule
  | or => .logicAnd
  | and => .equality
  | equality => .comparison
  | comparison => .term
  | term => .factor
  | factor => .unary

/-- The operators of a level. -/
def signs : Level → Phrase
  | or => word .or
  | and => word .and
  | equality => sign .bangEq ||| sign .eqEq
  | comparison => sign .greater ||| sign .greaterEq ||| sign .less ||| sign .lessEq
  | term => sign .minus ||| sign .plus
  | factor => sign .slash ||| sign .star

private theorem phrase_toRule (l : Level) :
    l.toRule.phrase = rule l.operandRule ++ many (l.signs ++ rule l.operandRule) := by
  cases l <;> rfl

variable {l : Level} {D : Rule → List TokenKind → Prop}

theorem matches_signs : l.signs.Matches D w ↔ ∃ op : InfixOp, op.level = l ∧ w = [op.token] := by
  constructor
  · intro h
    cases l with
    | or => exact ⟨.logical .or, rfl, h⟩
    | and => exact ⟨.logical .and, rfl, h⟩
    | equality =>
      exact h.elim (fun h => ⟨.binary .notEqual, rfl, h⟩) fun h => ⟨.binary .equal, rfl, h⟩
    | comparison =>
      obtain ((h | h) | h) | h := h
      · exact ⟨.binary .greater, rfl, h⟩
      · exact ⟨.binary .greaterEqual, rfl, h⟩
      · exact ⟨.binary .less, rfl, h⟩
      · exact ⟨.binary .lessEqual, rfl, h⟩
    | term => exact h.elim (fun h => ⟨.binary .subtract, rfl, h⟩) fun h => ⟨.binary .add, rfl, h⟩
    | factor =>
      exact h.elim (fun h => ⟨.binary .divide, rfl, h⟩) fun h => ⟨.binary .multiply, rfl, h⟩
  · rintro ⟨op, rfl, rfl⟩
    cases op with
    | logical o => cases o <;> exact rfl
    | binary o => cases o <;> simp [InfixOp.level, InfixOp.token, signs, Matches]

/-- An operator of the level and an operand after it. -/
def More (D : Rule → List TokenKind → Prop) (l : Level) (w : List TokenKind) : Prop :=
  ∃ op : InfixOp, op.level = l ∧ ∃ v, w = op.token :: v ∧ D l.operandRule v

/-- A word of a level is an operand, and then operators of the level with operands after them. -/
theorem matches_toRule : l.toRule.phrase.Matches D w ↔
    ∃ u ws, w = u ++ List.flatten ws ∧ D l.operandRule u ∧ ∀ v ∈ ws, l.More D v := by
  have hmore : ∀ v, (l.signs ++ rule l.operandRule).Matches D v ↔ l.More D v := by
    intro v
    constructor
    · rintro ⟨a, b, rfl, ha, hb⟩
      obtain ⟨op, hop, rfl⟩ := matches_signs.mp ha
      exact ⟨op, hop, b, rfl, hb⟩
    · rintro ⟨op, hop, b, rfl, hb⟩
      exact ⟨[op.token], b, rfl, matches_signs.mpr ⟨op, hop, rfl⟩, hb⟩
  rw [phrase_toRule]
  constructor
  · rintro ⟨u, _, rfl, hu, ws, rfl, hws⟩
    exact ⟨u, ws, rfl, hu, fun v hv => (hmore v).mp (hws v hv)⟩
  · rintro ⟨u, ws, rfl, hu, hws⟩
    exact ⟨u, _, rfl, hu, ws, rfl, fun v hv => (hmore v).mpr (hws v hv)⟩

end Level

/-! ### Derived words are written -/

/-- A name that stands nowhere. -/
def Ident.ofName (x : String) : Ident := ⟨x, default⟩

@[simp] theorem Ident.token_ofName (x : String) : (Ident.ofName x).token = .identifier x := rfl

/-- Some expression that binds at least as tightly as `p` is written as the word. -/
def Expr.Spells (p : Nat) (w : List TokenKind) : Prop :=
  ∃ e : Expr, e.Canonical ∧ e.precedence ≤ p ∧ w = e.tokens

namespace Expr

theorem Spells.mono {p q : Nat} (h : Spells p w) (hpq : p ≤ q) : Spells q w := by
  obtain ⟨e, he, hp, hw⟩ := h
  exact ⟨e, he, Nat.le_trans hp hpq, hw⟩

/-- Operators of one level associate to the left. -/
theorem spells_more {D : Rule → List TokenKind → Prop} {l : Level} {u : List TokenKind}
    {ws : List (List TokenKind)} (hD : ∀ v, D l.operandRule v → Spells (l.precedence - 1) v)
    (hu : Spells l.precedence u) (hws : ∀ v ∈ ws, l.More D v) :
    Spells l.precedence (u ++ ws.flatten) := by
  have hpos : 0 < l.precedence := by cases l <;> decide
  induction ws generalizing u with
  | nil => simpa using hu
  | cons v ws ih =>
    obtain ⟨op, rfl, v, rfl, hv⟩ := hws v List.mem_cons_self
    obtain ⟨e, he, hp, rfl⟩ := hu
    obtain ⟨r, hr, hp', rfl⟩ := hD v hv
    have hnode : Spells op.level.precedence (e.tokens ++ op.token :: r.tokens) := by
      refine ⟨op.node default e default r, ?_, ?_, ?_⟩
      · rw [InfixOp.canonical_node]
        exact ⟨he, hp, hr, Nat.lt_of_le_pred hpos hp'⟩
      · rw [InfixOp.precedence_node]
        exact Nat.le_refl _
      · rw [InfixOp.tokens_node]
    rw [List.flatten_cons, ← List.append_assoc]
    exact ih hnode fun v hv => hws v (List.mem_cons_of_mem _ hv)

/-- Arguments, if there are no more than allowed. -/
def SpellsArguments (w : List TokenKind) : Prop :=
  ∃ es : List Expr, es.length ≤ maxArity ∧ Expr.CanonicalAll es ∧ w = separated (Expr.tokensAll es)

private theorem spells_call {D : Rule → List TokenKind → Prop} {u : List TokenKind}
    {ws : List (List TokenKind)} (hD : ∀ v, D .arguments v → SpellsArguments v) (hu : Spells 0 u)
    (hws : ∀ v ∈ ws, (sign .leftParen ++ optional (rule .arguments) ++ sign .rightParen |||
      sign .dot ++ name).Matches D v) : Spells 0 (u ++ ws.flatten) := by
  induction ws generalizing u with
  | nil => simpa using hu
  | cons v ws ih =>
    obtain ⟨e, he, hp, rfl⟩ := hu
    have hp := Nat.le_zero.mp hp
    have hnode : Spells 0 (e.tokens ++ v) := by
      rcases hws v List.mem_cons_self with ⟨_, _, rfl, ⟨_, a, rfl, rfl, ha⟩, rfl⟩ | ⟨_, _,
        rfl, rfl, x, rfl⟩
      · have hargs : SpellsArguments a := by
          rcases ha with rfl | ha
          · exact ⟨[], Nat.zero_le _, trivial, rfl⟩
          · exact hD a ha
        obtain ⟨es, hlen, hes, rfl⟩ := hargs
        exact ⟨.call default e default es, ⟨he, hp, hlen, hes⟩, Nat.le_refl 0, by simp [tokens]⟩
      · exact ⟨.get default e (.ofName x), ⟨he, hp⟩, Nat.le_refl 0, by simp [tokens]⟩
    rw [List.flatten_cons, ← List.append_assoc]
    exact ih hnode fun v hv => hws v (List.mem_cons_of_mem _ hv)

end Expr

/-- An `else` after a statement that ends in a conditional without one belongs to that. -/
theorem Stmt.Written.withElse {o : Bool} {v : List TokenKind} {n : Stmt} :
    ∀ {b : Bool} {w : List TokenKind} {s : Stmt}, Stmt.Written b w s → b = true →
    Stmt.Written o v n →
      ∃ o' s', Stmt.Written o' (w ++ .keyword .else :: v) s'
  | _, _, _, .ifThen (o := false) hc hs, _, hn =>
    ⟨o, _, by simpa using Stmt.Written.ifElse (t := default) hc hs hn⟩
  | _, _, _, .ifThen (o := true) hc hs, _, hn => by
    obtain ⟨o', s', h⟩ := hs.withElse rfl hn
    exact ⟨true, _, by simpa using Stmt.Written.ifThen (t := default) hc h⟩
  | _, _, _, .ifElse hc hs ht, hb, hn => by
    obtain ⟨o', s', h⟩ := ht.withElse hb hn
    exact ⟨o', _, by simpa using Stmt.Written.ifElse (t := default) hc hs h⟩
  | _, _, _, .whileLoop hc hs, hb, hn => by
    obtain ⟨o', s', h⟩ := hs.withElse hb hn
    exact ⟨o', _, by simpa using Stmt.Written.whileLoop (t := default) hc h⟩
  | _, _, _, .forLoop hi hc hd hs, hb, hn => by
    obtain ⟨o', s', h⟩ := hs.withElse hb hn
    exact ⟨o', _, by simpa using Stmt.Written.forLoop (t := default) (p := default) hi hc hd h⟩

/-- What a word of the grammar is, in terms of the trees that are written so. -/
def Rule.Spells : Rule → List TokenKind → Prop
  | program, w => ∃ ss, Stmt.DeclaredAll w ss
  | declaration, w | classDecl, w | funDecl, w => ∃ s, Stmt.Declared w s
  | function, w => ∃ d, FunctionDecl.Written w d
  | parameters, w =>
    ∃ ps : List Ident, ps.length ≤ maxArity ∧ w = separated (ps.map fun p => [p.token])
  | varDecl, w => ∃ x e, (∀ v ∈ e, Expr.Canonical v) ∧ w = Stmt.varTokens x e
  | exprStmt, w => ∃ e : Expr, e.Canonical ∧ w = e.tokens ++ [.symbol .semicolon]
  | statement, w | forStmt, w | ifStmt, w | printStmt, w | returnStmt, w | whileStmt, w =>
    ∃ o s, Stmt.Written o w s
  | block, w => ∃ v b, Stmt.DeclaredAll v b ∧ w = .symbol .leftBrace :: (v ++ [.symbol .rightBrace])
  | expression, w | assignment, w => Expr.Spells 8 w
  | logicOr, w => Expr.Spells 7 w
  | logicAnd, w => Expr.Spells 6 w
  | equality, w => Expr.Spells 5 w
  | comparison, w => Expr.Spells 4 w
  | term, w => Expr.Spells 3 w
  | factor, w => Expr.Spells 2 w
  | unary, w => Expr.Spells 1 w
  | call, w | primary, w => Expr.Spells 0 w
  | arguments, w => Expr.SpellsArguments w

namespace Rule

open Ident (ofName)

variable {r : Rule}

theorem spells_operandRule {l : Level} (h : l.operandRule.Spells w) :
    Expr.Spells (l.precedence - 1) w := by
  cases l <;> exact h

theorem spells_toRule {l : Level} (h : l.toRule.phrase.Matches Spells w) :
    Expr.Spells l.precedence w := by
  obtain ⟨u, ws, rfl, hu, hws⟩ := Level.matches_toRule.mp h
  exact Expr.spells_more (fun _ => spells_operandRule)
    ((spells_operandRule hu).mono (Nat.sub_le _ _)) hws

private theorem spells_primary (h : primary.phrase.Matches Spells w) : Expr.Spells 0 w := by
  have hliteral : ∀ v : Literal, Expr.Spells 0 [v.token] := fun v =>
    ⟨.literal default v, trivial, Nat.le_refl 0, rfl⟩
  obtain (((((((rfl | rfl) | rfl) | rfl) | ⟨x, rfl⟩) | ⟨s, rfl⟩) | ⟨x, rfl⟩) |
    ⟨_, _, rfl, ⟨_, _, rfl, rfl, e, he, -, rfl⟩, rfl⟩) | ⟨_, _, rfl,
    ⟨_, _, rfl, rfl, rfl⟩, x, rfl⟩ := h
  · exact hliteral (.bool true)
  · exact hliteral (.bool false)
  · exact hliteral .nil
  · exact ⟨.this default, trivial, Nat.le_refl 0, rfl⟩
  · exact hliteral (.number x)
  · exact hliteral (.string s)
  · exact ⟨.var default (ofName x), trivial, Nat.le_refl 0, rfl⟩
  · exact ⟨.grouping default e, he, Nat.le_refl 0, by simp [Expr.tokens]⟩
  · exact ⟨.super default (ofName x), trivial, Nat.le_refl 0, rfl⟩

private theorem spells_unary (h : unary.phrase.Matches Spells w) : Expr.Spells 1 w := by
  obtain ⟨_, _, rfl, hop, e, he, hp, rfl⟩ | h := h
  · have hnode : ∀ op : UnaryOp, Expr.Spells 1 (op.token :: e.tokens) := fun op =>
      ⟨.unary default op default e, ⟨he, hp⟩, Nat.le_refl 1, rfl⟩
    obtain rfl | rfl := hop
    · exact hnode .not
    · exact hnode .negate
  · exact Expr.Spells.mono h (Nat.zero_le 1)

private theorem spells_assignment (h : assignment.phrase.Matches Spells w) : Expr.Spells 8 w := by
  obtain ⟨_, _, rfl, ⟨_, _, rfl, ⟨_, _, rfl, htarget, x, rfl⟩, rfl⟩, v, hv, -, rfl⟩ | h := h
  · obtain rfl | ⟨_, _, rfl, ⟨e, he, hp, rfl⟩, rfl⟩ := htarget
    · exact ⟨.assign default (ofName x) v, hv, Nat.le_refl 8, rfl⟩
    · exact ⟨.set default e (ofName x) v, ⟨he, Nat.le_zero.mp hp, hv⟩, Nat.le_refl 8,
        by simp [Expr.tokens]⟩
  · exact Expr.Spells.mono h (by decide)

private theorem spells_arguments (h : arguments.phrase.Matches Spells w) :
    Expr.SpellsArguments w := by
  obtain ⟨_, _, rfl, ⟨e, he, -, rfl⟩, ws, rfl, hlen, hws⟩ := h
  have hmore : ∀ v ∈ ws, ∃ e : Expr, e.Canonical ∧
      v = TokenKind.symbol .comma :: e.tokens := fun v hv => by
    obtain ⟨_, _, rfl, rfl, e, he, -, rfl⟩ := hws v hv
    exact ⟨e, he, rfl⟩
  obtain ⟨es, hes, rfl⟩ := exists_map_eq hmore
  refine ⟨e :: es, ?_, Expr.canonicalAll_iff.mpr (List.forall_mem_cons.mpr ⟨he, hes⟩), ?_⟩
  · rw [List.length_map] at hlen
    exact Nat.succ_le_of_lt (Nat.lt_of_le_of_lt hlen (by decide))
  · rw [Expr.tokensAll_eq_map, List.map_cons, separated_cons, List.map_map]
    rfl

private theorem spells_parameters (h : parameters.phrase.Matches Spells w) :
    parameters.Spells w := by
  obtain ⟨_, _, rfl, ⟨x, rfl⟩, ws, rfl, hlen, hws⟩ := h
  have hmore : ∀ v ∈ ws, ∃ x : String, True ∧
      v = [TokenKind.symbol .comma, .identifier x] := fun v hv => by
    obtain ⟨_, _, rfl, rfl, x, rfl⟩ := hws v hv
    exact ⟨x, trivial, rfl⟩
  obtain ⟨xs, -, rfl⟩ := exists_map_eq hmore
  refine ⟨ofName x :: xs.map ofName, ?_, ?_⟩
  · rw [List.length_map] at hlen
    rw [List.length_cons, List.length_map]
    exact Nat.succ_le_of_lt (Nat.lt_of_le_of_lt hlen (by decide))
  · rw [List.map_cons, separated_cons, List.map_map, List.map_map]
    rfl

/-- An expression that may be left out. -/
theorem exists_optionTokens (h : (optional (rule .expression)).Matches Spells w) :
    ∃ e, (∀ v ∈ e, Expr.Canonical v) ∧ w = Expr.optionTokens e := by
  obtain rfl | ⟨e, he, -, rfl⟩ := h
  · exact ⟨none, nofun, rfl⟩
  · exact ⟨some e, by simpa using he, rfl⟩

theorem exists_declaredAll {ws : List (List TokenKind)} (h : ∀ v ∈ ws, declaration.Spells v) :
    ∃ ss, Stmt.DeclaredAll ws.flatten ss := by
  induction ws with
  | nil => exact ⟨[], .nil⟩
  | cons w ws ih =>
    obtain ⟨s, hs⟩ := h w List.mem_cons_self
    obtain ⟨ss, hss⟩ := ih fun v hv => h v (List.mem_cons_of_mem _ hv)
    exact ⟨s :: ss, .cons hs hss⟩

private theorem exists_writtenAll {ws : List (List TokenKind)} (h : ∀ v ∈ ws, function.Spells v) :
    ∃ ds, FunctionDecl.WrittenAll ws.flatten ds := by
  induction ws with
  | nil => exact ⟨[], .nil⟩
  | cons w ws ih =>
    obtain ⟨d, hd⟩ := h w List.mem_cons_self
    obtain ⟨ds, hds⟩ := ih fun v hv => h v (List.mem_cons_of_mem _ hv)
    exact ⟨d :: ds, .cons hd hds⟩

private theorem spells_classDecl (h : classDecl.phrase.Matches Spells w) :
    ∃ s, Stmt.Declared w s := by
  obtain ⟨_, _, rfl, ⟨_, _, rfl, ⟨_, _, rfl, ⟨_, _, rfl, ⟨_, _, rfl, rfl, x, rfl⟩, hp⟩, rfl⟩,
    ws, rfl, hws⟩, rfl⟩ := h
  obtain ⟨ds, hds⟩ := exists_writtenAll hws
  have hwritten :
      ∀ p, Stmt.Declared (Stmt.classTokens (ofName x) p ws.flatten)
        (.classDecl default (ofName x) p ds) :=
    fun p => .classDecl hds
  obtain rfl | ⟨_, _, rfl, rfl, y, rfl⟩ := hp
  · exact ⟨_, by simpa [Stmt.classTokens, Superclass.tokens] using hwritten none⟩
  · exact ⟨_, by
      simpa [Stmt.classTokens, Superclass.tokens] using hwritten (some ⟨default, ofName y⟩)⟩

private theorem spells_function (h : function.phrase.Matches Spells w) :
    ∃ d, FunctionDecl.Written w d := by
  obtain ⟨_, _, rfl, ⟨_, _, rfl, ⟨_, _, rfl, ⟨_, _, rfl, ⟨x, rfl⟩, rfl⟩, hps⟩, rfl⟩, v,
      b, hb, rfl⟩ := h
  have hparams : parameters.Spells _ := hps.elim (fun h => ⟨[], Nat.zero_le _, h⟩) id
  obtain ⟨ps, hlen, rfl⟩ := hparams
  have hwritten : FunctionDecl.Written _ (.mk (ofName x) ps b default) := .mk hlen hb
  exact ⟨_, by simpa [FunctionDecl.tokensWith] using hwritten⟩

private theorem spells_varDecl (h : varDecl.phrase.Matches Spells w) : varDecl.Spells w := by
  obtain ⟨_, _, rfl, ⟨_, _, rfl, ⟨_, _, rfl, rfl, x, rfl⟩, he⟩, rfl⟩ := h
  obtain rfl | ⟨_, _, rfl, rfl, e, he, -, rfl⟩ := he
  · exact ⟨ofName x, none, nofun, rfl⟩
  · exact ⟨ofName x, some e, by simpa using he, by simp [Stmt.varTokens, Expr.initialTokens]⟩

private theorem spells_ifStmt (h : ifStmt.phrase.Matches Spells w) : ∃ o s, Stmt.Written o w s := by
  obtain ⟨_, _, rfl,
    ⟨_, _, rfl, ⟨_, _, rfl, ⟨_, _, rfl, ⟨_, _, rfl, rfl, rfl⟩, c, hc, -, rfl⟩, rfl⟩,
      o, s, hs⟩, helse⟩ := h
  have hopen : Stmt.Written true (Stmt.headTokens .if c ++ _) (.ifElse default c s none) :=
    .ifThen hc hs
  obtain rfl | ⟨_, _, rfl, rfl, o', n, hn⟩ := helse
  · exact ⟨true, _, by simpa [Stmt.headTokens] using hopen⟩
  · obtain ⟨o'', s', h⟩ :
        ∃ o'' s', Stmt.Written o'' (Stmt.headTokens .if c ++ _ ++ .keyword .else :: _) s' :=
      hopen.withElse rfl hn
    exact ⟨o'', s', by simpa [Stmt.headTokens] using h⟩

private theorem spells_forStmt (h : forStmt.phrase.Matches Spells w) :
    ∃ o s, Stmt.Written o w s := by
  obtain ⟨_, _, rfl,
    ⟨_, _, rfl, ⟨_, _, rfl, ⟨_, _, rfl, ⟨_, _, rfl, ⟨_, _, rfl, ⟨_, _, rfl, rfl, rfl⟩, hi⟩, hc⟩,
      rfl⟩, hd⟩, rfl⟩, o, s, hs⟩ := h
  obtain ⟨c, hcs, rfl⟩ := exists_optionTokens hc
  obtain ⟨d, hds, rfl⟩ := exists_optionTokens hd
  have hinitial : ∀ v, (rule .varDecl ||| rule .exprStmt ||| sign .semicolon).Matches Spells v →
      ∃ i, Stmt.Initial v i := by
    rintro v ((⟨x, e, he, rfl⟩ | ⟨e, he, rfl⟩) | rfl)
    · exact ⟨some (.var default x e), .var he⟩
    · exact ⟨some (.expr default e), .expr he⟩
    · exact ⟨none, .none⟩
  obtain ⟨i, hi⟩ := hinitial _ hi
  exact ⟨o, _, by
    simpa [Stmt.forTokens] using Stmt.Written.forLoop (t := default) (p := default) hi hcs hds hs⟩

private theorem spells_whileStmt (h : whileStmt.phrase.Matches Spells w) :
    ∃ o s, Stmt.Written o w s := by
  obtain ⟨_, _, rfl, ⟨_, _, rfl, ⟨_, _, rfl, ⟨_, _, rfl, rfl, rfl⟩, c, hc, -, rfl⟩, rfl⟩,
      o, s, hs⟩ := h
  exact ⟨o, _, by simpa [Stmt.headTokens] using Stmt.Written.whileLoop (t := default) hc hs⟩

private theorem spells_statement (h : statement.phrase.Matches Spells w) :
    ∃ o s, Stmt.Written o w s := by
  obtain (((((⟨e, he, rfl⟩ | h) | h) | h) | h) | h) | ⟨v, b, hb, rfl⟩ := h
  · exact ⟨false, .expr default e, .expr he⟩
  all_goals first | exact h | exact ⟨false, .block default b, .block hb⟩

/-- Every word of the grammar is written for a tree. -/
theorem spells_of_derives (h : r.Derives w) : r.Spells w := by
  refine h.induct fun r w h => ?_
  cases r with
  | program =>
    obtain ⟨ws, rfl, hws⟩ := h
    exact exists_declaredAll hws
  | declaration =>
    obtain ((h | h) | ⟨x, e, he, rfl⟩) | ⟨o, s, hs⟩ := h
    · exact h
    · exact h
    · exact ⟨.var default x e, .var he⟩
    · exact ⟨s, .statement hs⟩
  | classDecl => exact spells_classDecl h
  | funDecl =>
    obtain ⟨_, _, rfl, rfl, d, hd⟩ := h
    exact ⟨.function d, .function hd⟩
  | function => exact spells_function h
  | parameters => exact spells_parameters h
  | varDecl => exact spells_varDecl h
  | statement => exact spells_statement h
  | exprStmt =>
    obtain ⟨_, _, rfl, ⟨e, he, -, rfl⟩, rfl⟩ := h
    exact ⟨e, he, rfl⟩
  | forStmt => exact spells_forStmt h
  | ifStmt => exact spells_ifStmt h
  | printStmt =>
    obtain ⟨_, _, rfl, ⟨_, _, rfl, rfl, e, he, -, rfl⟩, rfl⟩ := h
    exact ⟨false, .print default e, .print he⟩
  | returnStmt =>
    obtain ⟨_, _, rfl, ⟨_, _, rfl, rfl, he⟩, rfl⟩ := h
    obtain ⟨e, hes, rfl⟩ := exists_optionTokens he
    exact ⟨false, .returning default default e, .returning hes⟩
  | whileStmt => exact spells_whileStmt h
  | block =>
    obtain ⟨_, _, rfl, ⟨_, _, rfl, rfl, ws, rfl, hws⟩, rfl⟩ := h
    obtain ⟨ss, hss⟩ := exists_declaredAll hws
    exact ⟨_, ss, hss, rfl⟩
  | expression => exact h
  | assignment => exact spells_assignment h
  | logicOr => exact spells_toRule (l := .or) h
  | logicAnd => exact spells_toRule (l := .and) h
  | equality => exact spells_toRule (l := .equality) h
  | comparison => exact spells_toRule (l := .comparison) h
  | term => exact spells_toRule (l := .term) h
  | factor => exact spells_toRule (l := .factor) h
  | unary => exact spells_unary h
  | call =>
    obtain ⟨u, _, rfl, hu, ws, rfl, hws⟩ := h
    exact Expr.spells_call (fun _ => id) hu hws
  | arguments => exact spells_arguments h
  | primary => exact spells_primary h

end Rule

/-! ### Written words are derived -/

namespace Level

variable {l m : Level}

theorem derives_of_operand (h : l.operandRule.Derives w) : l.toRule.Derives w :=
  derives_of_matches (matches_toRule.mpr ⟨w, [], by simp, h, nofun⟩)

theorem eq_of_precedence_eq (h : l.precedence = m.precedence) : l = m := by
  cases l <;> cases m <;> first | rfl | cases h

/-- The operands of a level are words of the next level, down to those of unary operators. -/
theorem operandRule_eq (l : Level) : l = .factor ∨
    ∃ t : Level, l.tighter? = some t ∧ l.operandRule = t.toRule ∧
    l.precedence = t.precedence + 1 := by
  cases l with
  | factor => exact .inl rfl
  | or => exact .inr ⟨.and, rfl, rfl, rfl⟩
  | and => exact .inr ⟨.equality, rfl, rfl, rfl⟩
  | equality => exact .inr ⟨.comparison, rfl, rfl, rfl⟩
  | comparison => exact .inr ⟨.term, rfl, rfl, rfl⟩
  | term => exact .inr ⟨.factor, rfl, rfl, rfl⟩

theorem two_le_precedence (l : Level) : 2 ≤ l.precedence := by cases l <;> decide

theorem precedence_le (l : Level) : l.precedence ≤ 7 := by cases l <;> decide

/-- A word of a level is one of each looser level. -/
theorem derives_looser (h : l.toRule.Derives w) (hl : l.precedence ≤ m.precedence) :
    m.toRule.Derives w := by
  induction hn : m.precedence generalizing m with
  | zero => exact absurd m.two_le_precedence (by omega)
  | succ n ih =>
    obtain heq | hlt := Nat.eq_or_lt_of_le hl
    · exact eq_of_precedence_eq heq ▸ h
    · obtain rfl | ⟨t, -, ht, hp⟩ := m.operandRule_eq
      · exact absurd l.two_le_precedence (Nat.not_le_of_lt hlt)
      · exact derives_of_operand (ht ▸ ih (by omega) (by omega))

end Level

/-- What derives the tokens of an expression. -/
structure Expr.Derived (e : Expr) : Prop where
  assignment : Rule.assignment.Derives e.tokens
  level : ∀ l : Level, e.precedence ≤ l.precedence → l.toRule.Derives e.tokens
  unary : e.precedence ≤ 1 → Rule.unary.Derives e.tokens
  call : e.precedence = 0 → Rule.call.Derives e.tokens

namespace Expr.Derived

variable {e : Expr}

private theorem of_level {l : Level} (hp : e.precedence = l.precedence)
    (h : l.toRule.Derives e.tokens) : e.Derived := by
  have hl := l.two_le_precedence
  have hor : Level.or.toRule.Derives e.tokens := Level.derives_looser h l.precedence_le
  refine ⟨derives_of_matches (.inr hor), fun m hm => Level.derives_looser h (hp ▸ hm), ?_, ?_⟩ <;>
    omega

theorem of_assignment (hp : e.precedence = 8) (h : Rule.assignment.Derives e.tokens) : e.Derived :=
  ⟨h, fun l hl => absurd l.precedence_le (by omega), by omega, by omega⟩

/-- What holds of an operand of a unary operator, and how calls may follow. -/
theorem of_unary (h : Rule.unary.Derives e.tokens)
    (hcall : e.precedence = 0 → Rule.call.Derives e.tokens) : e.Derived := by
  have hfactor : Level.factor.toRule.Derives e.tokens := Level.derives_of_operand h
  have hor : Level.or.toRule.Derives e.tokens := Level.derives_looser hfactor (by decide)
  exact ⟨derives_of_matches (.inr hor), fun l _ => Level.derives_looser hfactor l.two_le_precedence,
    fun _ => h, hcall⟩

theorem of_call (h : Rule.call.Derives e.tokens) : e.Derived :=
  of_unary (derives_of_matches (.inr h)) fun _ => h

theorem of_primary (h : Rule.primary.phrase.Matches Derives e.tokens) : e.Derived :=
  of_call (derives_of_matches ⟨_, [], by simp, derives_of_matches h, [], rfl, nofun⟩)

/-- An operand of a level binds more tightly than its operators. -/
theorem operand (h : e.Derived) {l : Level} (hp : e.precedence < l.precedence) :
    l.operandRule.Derives e.tokens := by
  obtain rfl | ⟨t, -, ht, hlt⟩ := l.operandRule_eq
  · exact h.unary (Nat.le_of_lt_succ hp)
  · exact ht ▸ h.level t (by omega)

theorem node (op : InfixOp) {s : Site} {l : Expr} {t : Span} {r : Expr} (hl : l.Derived)
    (hlp : l.precedence ≤ op.precedence) (hr : r.Derived) (hrp : r.precedence < op.precedence) :
    (op.node s l t r).Derived := by
  obtain ⟨u, ws, hu, hfirst, hws⟩ :=
    Level.matches_toRule.mp (derives_iff_matches.mp (hl.level op.level hlp))
  refine of_level (l := op.level) (op.precedence_node s l t r)
    (derives_of_matches (Level.matches_toRule.mpr ?_))
  refine ⟨u, ws ++ [op.token :: r.tokens], ?_, hfirst, fun v hv => ?_⟩
  · rw [op.tokens_node, hu]
    simp
  · rcases List.mem_append.mp hv with hv | hv
    · exact hws v hv
    · exact ⟨op, rfl, r.tokens, List.mem_singleton.mp hv, hr.operand hrp⟩

/-- One more call or property access. -/
theorem suffix {f : Expr} (hf : f.Derived) (hfp : f.precedence = 0) {v : List TokenKind}
    (htokens : e.tokens = f.tokens ++ v)
    (hv : (sign .leftParen ++ optional (rule .arguments) ++ sign .rightParen ||| sign .dot ++
      name).Matches Derives v) : e.Derived := by
  obtain ⟨u, _, htokens', hu, ws, rfl, hws⟩ := derives_iff_matches.mp (hf.call hfp)
  refine of_call (derives_of_matches ⟨u, _, ?_, hu, ws ++ [v], rfl, fun x hx => ?_⟩)
  · rw [htokens, htokens']
    simp
  · rcases List.mem_append.mp hx with hx | hx
    · exact hws x hx
    · exact List.mem_singleton.mp hx ▸ hv

end Expr.Derived

/-- Arguments, if there are any. -/
theorem Rule.matches_arguments {es : List Expr} (hes : ∀ e ∈ es, e.Derived)
    (hlen : es.length ≤ maxArity) :
    (optional (rule .arguments)).Matches Derives (separated (Expr.tokensAll es)) := by
  cases es with
  | nil => exact .inl rfl
  | cons e es =>
    have hexpr : ∀ f ∈ e :: es, expression.Derives f.tokens := fun f hf =>
      derives_of_matches (hes f hf).assignment
    refine .inr (derives_of_matches ⟨e.tokens, _, ?_, hexpr e List.mem_cons_self,
      es.map fun f => TokenKind.symbol .comma :: f.tokens, rfl, ?_, fun v hv => ?_⟩)
    · rw [Expr.tokensAll_eq_map, List.map_cons, separated_cons, List.map_map]
      rfl
    · rw [List.length_map]
      exact Nat.le_pred_of_lt hlen
    · obtain ⟨f, hf, rfl⟩ := List.mem_map.mp hv
      exact ⟨_, _, rfl, rfl, hexpr f (List.mem_cons_of_mem _ hf)⟩

private theorem Rule.matches_parameters {ps : List Ident} (hlen : ps.length ≤ maxArity) :
    (optional (rule .parameters)).Matches Derives (separated (ps.map fun p => [p.token])) := by
  cases ps with
  | nil => exact .inl rfl
  | cons p ps =>
    refine .inr (derives_of_matches ⟨[p.token], _, ?_, ⟨p.name, rfl⟩,
      ps.map fun q => [TokenKind.symbol .comma, q.token], rfl, ?_, fun v hv => ?_⟩)
    · rw [List.map_cons, separated_cons, List.map_map]
      rfl
    · rw [List.length_map]
      exact Nat.le_pred_of_lt hlen
    · obtain ⟨q, hq, rfl⟩ := List.mem_map.mp hv
      exact ⟨_, _, rfl, rfl, q.name, rfl⟩

mutual

theorem Expr.derived : (e : Expr) → e.Canonical → e.Derived
  | .literal _ v, _ => .of_primary <| by
    cases v with
    | bool b => cases b <;> simp [tokens, Literal.token, phrase, Matches]
    | nil | number | string => simp [tokens, Literal.token, phrase, Matches]
  | .grouping _ e, h => .of_primary <| .inl <| .inr
    ⟨_, [.symbol .rightParen], rfl,
      ⟨_, _, rfl, rfl, derives_of_matches (e.derived h).assignment⟩, rfl⟩
  | .unary _ op _ e, h => by
    refine .of_unary (derives_of_matches (.inl ⟨[op.token], _, rfl, ?_, (e.derived h.1).unary h.2⟩))
      (by simp [precedence])
    cases op <;> simp [UnaryOp.token, Matches]
  | .binary s l op t r, h =>
    .node (.binary op) (s := s) (t := t) (l.derived h.1) h.2.1 (r.derived h.2.2.1) h.2.2.2
  | .logical s l op r, h =>
    .node (.logical op) (s := s) (t := default) (l.derived h.1) h.2.1 (r.derived h.2.2.1) h.2.2.2
  | .var _ x, _ => .of_primary <| .inl <| .inl <| .inr ⟨x.name, rfl⟩
  | .assign _ x v, h => .of_assignment rfl <| derives_of_matches <| .inl
    ⟨[x.token, .symbol .eq], v.tokens, rfl,
      ⟨[x.token], _, rfl, ⟨[], _, rfl, .inl rfl, x.name, rfl⟩, rfl⟩,
      (v.derived h).assignment⟩
  | .call _ f _ es, h =>
    .suffix (f.derived h.1) h.2.1 rfl <| .inl
      ⟨_, [.symbol .rightParen], rfl,
        ⟨_, _, rfl, rfl, matches_arguments (Expr.derived_all es h.2.2.2) h.2.2.1⟩, rfl⟩
  | .get _ e x, h => .suffix (e.derived h.1) h.2 rfl <| .inr ⟨_, _, rfl, rfl, x.name, rfl⟩
  | .set _ e x v, h => by
    have htarget :
        (optional (rule .call ++ sign .dot)).Matches Derives (e.tokens ++ [.symbol .dot]) :=
      .inr ⟨e.tokens, [.symbol .dot], rfl, (e.derived h.1).call h.2.1, rfl⟩
    refine .of_assignment rfl (derives_of_matches (.inl
      ⟨_, v.tokens, ?_, ⟨_, [.symbol .eq], rfl, ⟨_, [x.token], rfl, htarget, x.name, rfl⟩, rfl⟩,
        (v.derived h.2.2).assignment⟩))
    simp [tokens]
  | .this _, _ => .of_primary <| by simp [tokens, phrase, Matches]
  | .super _ x, _ =>
    .of_primary <|
      .inr ⟨[.keyword .super, .symbol .dot], _, rfl, ⟨_, _, rfl, rfl, rfl⟩, x.name, rfl⟩

theorem Expr.derived_all : (es : List Expr) → Expr.CanonicalAll es → ∀ e ∈ es, e.Derived
  | [], _ => nofun
  | e :: es, h => List.forall_mem_cons.mpr ⟨e.derived h.1, Expr.derived_all es h.2⟩

end

theorem Rule.matches_option {e : Option Expr} (h : ∀ v ∈ e, Expr.Canonical v) :
    (optional (rule .expression)).Matches Derives (Expr.optionTokens e) := by
  cases e with
  | none => exact .inl rfl
  | some e => exact .inr (derives_of_matches (e.derived (h e rfl)).assignment)

theorem Rule.derives_var {x : Ident} {e : Option Expr} (h : ∀ v ∈ e, Expr.Canonical v) :
    Rule.varDecl.Derives (Stmt.varTokens x e) := by
  have hinitial :
      (optional (sign .eq ++ rule .expression)).Matches Derives (Expr.initialTokens e) := by
    cases e with
    | none => exact .inl rfl
    | some e => exact .inr ⟨_, _, rfl, rfl, derives_of_matches (e.derived (h e rfl)).assignment⟩
  exact derives_of_matches ⟨_, [.symbol .semicolon], rfl, ⟨[.keyword .var, x.token], _, rfl,
    ⟨_, _, rfl, rfl, x.name, rfl⟩, hinitial⟩, rfl⟩

private theorem Rule.matches_initial {w : List TokenKind} {i : Option Stmt} (h : Stmt.Initial w i) :
    (rule .varDecl ||| rule .exprStmt ||| sign .semicolon).Matches Derives w := by
  cases h with
  | none => exact .inr rfl
  | var he => exact .inl (.inl (derives_var he))
  | expr he =>
    exact .inl (.inr
      (derives_of_matches ⟨_, _, rfl, derives_of_matches (Expr.derived _ he).assignment, rfl⟩))

/-- A word and a condition in parentheses after it. -/
theorem Rule.matches_head {k : Keyword} {c : Expr} (h : c.Canonical) :
    (word k ++ sign .leftParen ++ rule .expression ++ sign .rightParen).Matches Derives
      (Stmt.headTokens k c) :=
  ⟨_, [.symbol .rightParen], rfl,
    ⟨[.keyword k, .symbol .leftParen], c.tokens, rfl, ⟨_, _, rfl, rfl, rfl⟩,
      derives_of_matches (c.derived h).assignment⟩, rfl⟩

private theorem Rule.matches_for {w : List TokenKind} {i : Option Stmt} {c d : Option Expr}
    (hi : Stmt.Initial w i) (hc : ∀ e ∈ c, Expr.Canonical e) (hd : ∀ e ∈ d, Expr.Canonical e) :
    (word .for ++ sign .leftParen ++ (rule .varDecl ||| rule .exprStmt ||| sign .semicolon) ++
      optional (rule .expression) ++ sign .semicolon ++ optional (rule .expression) ++
        sign .rightParen).Matches
      Derives (Stmt.forTokens w c d) := by
  refine ⟨_, [.symbol .rightParen], ?_, ⟨_, _, rfl, ⟨_, [.symbol .semicolon], rfl, ⟨_, _, rfl,
    ⟨[.keyword .for, .symbol .leftParen], w, rfl, ⟨_, _, rfl, rfl, rfl⟩, matches_initial hi⟩,
    matches_option hc⟩, rfl⟩, matches_option hd⟩, rfl⟩
  simp [Stmt.forTokens]

/-- Where the declarations of a word begin and end. -/
def Stmt.Divided (w : List TokenKind) (ss : List Stmt) : Prop :=
  ∃ ws, w = List.flatten ws ∧
  List.Forall₂ (fun v s => declaration.Derives v ∧ Stmt.Declared v s) ws ss

theorem Stmt.Divided.derives {ss : List Stmt} (h : Stmt.Divided w ss) :
    (many (rule .declaration)).Matches Derives w := by
  obtain ⟨ws, rfl, hws⟩ := h
  refine ⟨ws, rfl, fun v hv => ?_⟩
  obtain ⟨n, hn, rfl⟩ := List.mem_iff_getElem.mp hv
  exact (hws.get hn (hws.length_eq ▸ hn)).1

mutual

theorem Stmt.Written.derives {o : Bool} {w : List TokenKind} {s : Stmt} : Stmt.Written o w s →
    statement.Derives w
  | .expr he =>
    derives_of_matches <| .inl <| .inl <| .inl <| .inl <| .inl <| .inl <| derives_of_matches
    ⟨_, _, rfl, derives_of_matches (Expr.derived _ he).assignment, rfl⟩
  | .print he => derives_of_matches <| .inl <| .inl <| .inl <| .inr <| derives_of_matches
    ⟨_, [.symbol .semicolon], rfl,
      ⟨_, _, rfl, rfl, derives_of_matches (Expr.derived _ he).assignment⟩, rfl⟩
  | .returning he => derives_of_matches <| .inl <| .inl <| .inr <| derives_of_matches
    ⟨_, [.symbol .semicolon], rfl, ⟨_, _, rfl, rfl, matches_option he⟩, rfl⟩
  | .block hb => derives_of_matches <| .inr <| derives_of_matches
    ⟨_, [.symbol .rightBrace], rfl, ⟨_, _, rfl, rfl, hb.divided.derives⟩, rfl⟩
  | .ifThen hc hs =>
    derives_of_matches <| .inl <| .inl <| .inl <| .inl <| .inr <| derives_of_matches
    ⟨_, [], by simp, ⟨_, _, rfl, matches_head hc, hs.derives⟩, .inl rfl⟩
  | .ifElse hc hs hn =>
    derives_of_matches <| .inl <| .inl <| .inl <| .inl <| .inr <| derives_of_matches
    ⟨_, _, by simp, ⟨_, _, rfl, matches_head hc, hs.derives⟩, .inr ⟨_, _, rfl, rfl, hn.derives⟩⟩
  | .whileLoop hc hs => derives_of_matches <| .inl <| .inr <| derives_of_matches
    ⟨_, _, rfl, matches_head hc, hs.derives⟩
  | .forLoop hi hc hd hs => derives_of_matches <| .inl <| .inl <| .inl <| .inl <| .inl <| .inr <|
    derives_of_matches ⟨_, _, rfl, matches_for hi hc hd, hs.derives⟩

theorem Stmt.Declared.derives {w : List TokenKind} {s : Stmt} :
    Stmt.Declared w s → declaration.Derives w
  | .statement hs => derives_of_matches (.inr hs.derives)
  | .var he => derives_of_matches (.inl (.inr (derives_var he)))
  | .function hd =>
    derives_of_matches <| .inl <| .inl <| .inr <| derives_of_matches ⟨_, _, rfl, rfl, hd.derives⟩
  | .classDecl (x := x) (p := p) hms => by
    have hp : (optional (sign .less ++ name)).Matches Derives (Superclass.tokens p) := by
      cases p with
      | none => exact .inl rfl
      | some p => exact .inr ⟨_, _, rfl, rfl, p.name.name, rfl⟩
    refine derives_of_matches (.inl (.inl (.inl (derives_of_matches ⟨_, [.symbol .rightBrace], ?_,
      ⟨_, _, rfl, ⟨_, [.symbol .leftBrace], rfl, ⟨[.keyword .cls, x.token], _, rfl,
        ⟨_, _, rfl, rfl, x.name, rfl⟩, hp⟩, rfl⟩, hms.derives⟩, rfl⟩))))
    simp [Stmt.classTokens]

theorem Stmt.DeclaredAll.divided {w : List TokenKind} {ss : List Stmt} :
    Stmt.DeclaredAll w ss → Stmt.Divided w ss
  | .nil => ⟨[], rfl, .nil⟩
  | .cons hs hss => by
    obtain ⟨ws, rfl, hws⟩ := hss.divided
    exact ⟨_ :: ws, rfl, .cons ⟨hs.derives, hs⟩ hws⟩

theorem FunctionDecl.Written.derives {w : List TokenKind} {d : FunctionDecl} :
    FunctionDecl.Written w d →
    Rule.function.Derives w
  | .mk (x := x) hlen hb => by
    refine derives_of_matches ⟨_, _, ?_,
      ⟨_, [.symbol .rightParen], rfl, ⟨[x.token, .symbol .leftParen], _, rfl,
        ⟨_, _, rfl, ⟨x.name, rfl⟩, rfl⟩, matches_parameters hlen⟩, rfl⟩,
      derives_of_matches ⟨_, [.symbol .rightBrace], rfl, ⟨_, _, rfl, rfl, hb.divided.derives⟩, rfl⟩⟩
    simp [FunctionDecl.tokensWith]

theorem FunctionDecl.WrittenAll.derives {w : List TokenKind} {ds : List FunctionDecl} :
    FunctionDecl.WrittenAll w ds → (many (rule .function)).Matches Derives w
  | .nil => ⟨[], rfl, nofun⟩
  | .cons hd hds => by
    obtain ⟨ws, rfl, hws⟩ := hds.derives
    exact ⟨_ :: ws, rfl, List.forall_mem_cons.mpr ⟨hd.derives, hws⟩⟩

end

end Lox
