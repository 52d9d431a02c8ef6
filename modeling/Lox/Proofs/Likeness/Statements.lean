import Lox.Proofs.Likeness.Expressions
import Lox.Proofs.Reading.Statement
/-!
# Reading statements that are alike

A statement ends with the token that it takes last, so its reader is closed. There is one exception:
an `if` looks for an `else` after it. So no `else` may stand where the first cursor has its end.
-/

namespace Lox

variable {L : Likeness} {N : Nat → Nat → Prop} {us : Option (List Token)} {c c' : Cursor}

/-- Statements that are alike and were read from the cursor `c`. -/
def Stmt.LikeFrom (L : Likeness) (c : Cursor) (s s' : Stmt) (d : Cursor) : Prop :=
  s.Like L s' ∧ d.rest.length < c.rest.length

/-- The tokens do not go on with an `else`. -/
def Token.NoElse (us : List Token) : Prop := ∀ t ∈ us.head?, t.kind ≠ .keyword .else

namespace Reader

/-! ### Pieces of statements -/

theorem Twins.map {α α' β β' : Type} {C : Prop} {r : Reader α} {r' : Reader α'}
    {Q : α → α' → Cursor → Prop} {R : β → β' → Cursor → Prop} {f : α → β} {f' : α' → β'}
    (h : Twins L N us C r c r' c' Q)
    (hq : ∀ a a' d, d.rest.length ≤ c.rest.length → Q a a' d → R (f a) (f' a') d) :
    Twins L N us C (f <$> r) c (f' <$> r') c' R := by
  have hb :
      Twins L N us C (r >>= fun a => Pure.pure (f a)) c (r' >>= fun a => Pure.pure (f' a)) c' R :=
    h.bind (fun hn a d hd => ⟨.of_some rfl (Nat.le_refl _) rfl, hd, fun hcl => absurd hcl hn⟩)
      fun a a' d d' hd hlt ha => .pure hd (hq a a' d hlt ha)
  exact hb.congr rfl rfl

theorem Twins.expressionUnless (hN : L.Numbers N) (h : c.Like L N us c') (s : Symbol) :
    Twins L N us False (expressionUnless s) c (expressionUnless s) c'
      fun e e' _ => Option.Rel (Expr.Like L) e e' := by
  refine .peek (fun hl => by
    rw [Cursor.isSymbol, Cursor.isSymbol, h.kind hl]) (fun hl => ?_) fun _ => ?_
  · rw [Cursor.isSymbol, Cursor.kind, hl.2]
    exact (ends_expression hl.2).bind_closed
  · split
    · exact .pure h .none
    · exact (Twins.expression hN h).bind (fun _ _ d hd => ends_pure hd) fun e e' d d' hd _ he =>
        .pure hd (.some he.1)

/-- One parameter and those that follow it, when there may be one more. -/
def parametersRest (n count : Nat) : Reader (List Ident) := do
  let x ← name "parameter name"
  if ← eat .comma then
    let xs ← parameters n (count + 1)
    pure (x :: xs)
  else
    pure [x]

theorem ends_parameters (count : Nat) {C : Prop} {n : Nat} (hn : 1 ≤ n) (hc : c.rest = []) :
    (parameters n count).Ends C c := by
  obtain ⟨n, rfl⟩ := Nat.exists_eq_add_of_le' hn
  have hrest : ∀ d : Cursor, d.rest = [] → (parametersRest n count).Ends C d := fun d hd =>
    (ends_name _ hd).bind_closed
  rw [parameters]
  split
  · exact (ends_reportHere _ hc).bind fun _ _ d _ hd => hrest d hd
  · exact hrest c hc

theorem Twins.parameters (n : Nat) : ∀ {m c c'} count, c.Like L N us c' → c.rest.length + 1 ≤ n →
    c'.rest.length + 1 ≤ m → Twins L N us False (parameters n count) c (parameters m count) c'
      fun xs xs' _ => List.Forall₂ L.Ident xs xs' := by
  induction n with
  | zero => intros; omega
  | succ n ih =>
    intro n' c c' count h hn hn'
    obtain ⟨m, rfl⟩ := Nat.exists_eq_add_of_le' (Nat.le_trans (Nat.le_add_left 1 _) hn')
    by_cases hl : c.Lost us
    · exact (ends_parameters count (Nat.le_add_left 1 n) hl.2).twins hl.1
    have hrest : ∀ d d', d.Like L N us d' → d.rest.length ≤ c.rest.length →
        Twins L N us False (parametersRest n count) d (parametersRest m count) d'
          fun xs xs' _ => List.Forall₂ L.Ident xs xs' := by
      intro d d' hd hlt
      have hlen := h.length
      have hlen' := hd.length
      refine (Twins.name hd "parameter name").next fun x x' f f' hf _ hx => ?_
      have hlt' := hx.2
      refine .eat hf (fun hl => ends_pure hl.2) (fun g g' hg hlt'' => ?_) fun _ =>
        .pure hf (.cons hx.1 .nil)
      have hlen'' := hg.length
      exact (ih (count + 1) hg (by omega) (by omega)).bind (fun _ xs i hi => ends_pure hi)
        fun xs xs' i i' hi _ hxs => .pure hi (.cons hx.1 hxs)
    rw [Reader.parameters, Reader.parameters]
    split
    · exact (Twins.reportHere h hl .tooManyParameters).next fun _ _ d d' hd hlt _ =>
        hrest d d' hd hlt
    · exact hrest c c' h (Nat.le_refl _)

theorem Twins.parameterList (h : c.Like L N us c') (sort : String) :
    Twins L N us True (parameterList sort) c (parameterList sort) c'
      fun xs xs' _ => List.Forall₂ L.Ident xs xs' := by
  refine (Twins.expect h .leftParen _).next fun _ _ d d' hd _ _ => ?_
  have hrest : ∀ xs xs' f f', f.Like L N us f' → List.Forall₂ L.Ident xs xs' →
      Twins L N us True (do let _ ← Reader.expect .rightParen "after parameters"; Pure.pure xs) f
        (do let _ ← Reader.expect .rightParen "after parameters"; Pure.pure xs') f'
        fun xs xs' _ => List.Forall₂ L.Ident xs xs' := fun xs xs' f f' hf hxs =>
    (Twins.expect hf .rightParen _).next fun _ _ g g' hg _ _ => .pure hg hxs
  refine .peek (fun hl => by
    rw [Cursor.isSymbol, Cursor.isSymbol, hd.kind hl]) (fun hl => ?_) fun _ => ?_
  · rw [Cursor.isSymbol, Cursor.kind, hl.2]
    have hends : Ends True (fun c => Reader.parameters (c.rest.length + 1) 0 c) d :=
      (ends_parameters 0 (Nat.le_add_left 1 d.rest.length) hl.2).congr rfl
    exact hends.bind_closed
  · split
    · exact hrest [] [] d d' hd .nil
    · have hps : Twins L N us False (fun c => Reader.parameters (c.rest.length + 1) 0 c) d
          (fun c => Reader.parameters (c.rest.length + 1) 0 c) d' fun xs xs' _ =>
            List.Forall₂ L.Ident xs xs' :=
        (Twins.parameters (d.rest.length + 1) 0 hd (Nat.le_refl _) (Nat.le_refl _)).congr rfl rfl
      exact hps.bind (fun _ xs f hf => (ends_expect _ _ hf).bind_closed)
        fun xs xs' f f' hf _ hxs => hrest xs xs' f f' hf hxs

theorem Twins.superclass (hN : L.Numbers N) (h : c.Like L N us c') :
    Twins L N us False superclass c superclass c' fun p p' _ => Option.Rel L.Superclass p p' := by
  refine .eat h (fun hl => ends_pure hl.2) (fun d d' hd _ => ?_) fun _ => .pure h .none
  refine (Twins.name hd "superclass name").next fun x x' f f' hf _ hx => ?_
  exact (Twins.site hf hN hx.1.span).next fun s s' g g' hg _ hs => .pure hg (.some ⟨hs.1, hx.1⟩)

/-! ### Statements without statements inside -/

section

variable (hN : L.Numbers N) (h : c.Like L N us c')

include hN h

theorem Twins.varDecl (hc : c.rest ≠ []) :
    Twins L N us True varDecl c varDecl c' (Stmt.LikeFrom L c) := by
  refine (Twins.advance h hc).next fun s s' d d' hd _ hs => ?_
  refine (Twins.name hd "variable name").next fun x x' f f' hf hlt hx => ?_
  have hrest : ∀ v v' g g', g.Like L N us g' → g.rest.length ≤ f.rest.length →
      Option.Rel (Expr.Like L) v v' →
      Twins L N us True
        (do
          let t ← Reader.expect .semicolon "after variable declaration"
          Pure.pure (Stmt.var (s.merge t) x v)) g
        (do
          let t ← Reader.expect .semicolon "after variable declaration"
          Pure.pure (Stmt.var (s'.merge t) x' v')) g'
        (Stmt.LikeFrom L c) := by
    intro v v' g g' hg hlt' hv
    refine (Twins.expect hg .semicolon _).next fun t t' i i' hi hlt'' ht => .pure hi ⟨?_, ?_⟩
    · exact .var (hN.merge hs.1 ht.1) hx.1 hv
    · have hlt''' := hs.2
      omega
  refine .eat hf (fun hl => (ends_expect _ _ hl.2).bind_closed) (fun g g' hg hlt' => ?_) fun _ =>
    hrest none none f f' hf (Nat.le_refl _) .none
  refine ((Twins.expression hN hg).map (R := fun e e' _ => Option.Rel (Expr.Like L) e e')
    fun e e' _ _ he => .some he.1).bind (fun _ e i hi => (ends_expect _ _ hi).bind_closed)
    fun e e' i i' hi hlt'' he => hrest e e' i i' hi (by omega) he

theorem Twins.printStmt (hc : c.rest ≠ []) :
    Twins L N us True printStmt c printStmt c' (Stmt.LikeFrom L c) := by
  refine (Twins.advance h hc).next fun s s' d d' hd _ hs => ?_
  refine (Twins.expression hN hd).bind (fun _ e f hf => (ends_expect _ _ hf).bind_closed)
    fun e e' f f' hf _ he => ?_
  refine (Twins.expect hf .semicolon _).next fun t t' g g' hg _ ht => .pure hg ⟨?_, ?_⟩
  · exact .print (hN.merge hs.1 ht.1) he.1
  · have hlt := hs.2
    omega

theorem Twins.returnStmt (hc : c.rest ≠ []) :
    Twins L N us True returnStmt c returnStmt c' (Stmt.LikeFrom L c) := by
  refine (Twins.advance h hc).next fun s s' d d' hd _ hs => ?_
  refine (Twins.expressionUnless hN hd .semicolon).bind
    (fun _ e f hf => (ends_expect _ _ hf).bind_closed)
    fun e e' f f' hf _ he => ?_
  refine (Twins.expect hf .semicolon _).next fun t t' g g' hg _ ht => .pure hg ⟨?_, ?_⟩
  · exact .returning (hN.merge hs.1 ht.1) hs.1 he
  · have hlt := hs.2
    omega

theorem Twins.expressionStmt :
    Twins L N us True expressionStmt c expressionStmt c' (Stmt.LikeFrom L c) := by
  refine (Twins.expression hN h).bind (fun _ e f hf => (ends_expect _ _ hf).bind_closed)
    fun e e' f f' hf _ he => ?_
  refine (Twins.expect hf .semicolon _).next fun t t' g g' hg _ ht => .pure hg ⟨?_, ?_⟩
  · exact .expr (hN.merge he.1.span ht.1) he.1
  · have hlt := he.2
    omega

theorem Twins.forInitial :
    Twins L N us True forInitial c forInitial c' fun s s' _ => Option.Rel (Stmt.Like L) s s' := by
  have hends : ∀ d : Cursor, d.rest = [] → Ends True (do
      let e ← Reader.expression
      let _ ← Reader.expect .semicolon "after loop initializer"
      Pure.pure (some (Stmt.expr e.span e))) d := fun d hd => (ends_expression hd).bind_closed
  have hinitial : ∀ d : Cursor, d.rest = [] → Ends True (do
      if ← ask (·.isKeyword .var) then some <$> Reader.varDecl
      else
        let e ← Reader.expression
        let _ ← Reader.expect .semicolon "after loop initializer"
        Pure.pure (some (Stmt.expr e.span e))) d := by
    intro d hd
    refine (hends d hd).congr ?_
    rw [ask_bind]
    have hk : d.isKeyword .var = false := by simp [Cursor.isKeyword, Cursor.kind, hd]
    rw [hk]
    rfl
  refine .eat h (fun hl => hinitial c hl.2) (fun d d' hd _ => .pure hd .none) fun _ => ?_
  refine .peek (fun hl => by
    rw [Cursor.isKeyword, Cursor.isKeyword, h.kind hl]) (fun hl => ?_) fun _ => ?_
  · exact (hinitial c hl.2).congr rfl
  · split
    · rename_i hk
      exact (Twins.varDecl hN h (rest_ne_nil_of_isKeyword hk)).map fun s s' d _ hs => .some hs.1
    · refine (Twins.expression hN h).bind (fun _ e f hf => (ends_expect _ _ hf).bind_closed)
        fun e e' f f' hf _ he => ?_
      exact (Twins.expect hf .semicolon _).next fun _ _ g g' hg _ _ =>
        .pure hg (.some (.expr he.1.span he.1))

end

end Reader

theorem Stmt.forLoop_like {t t' : Span} (ht : L.span t t') {i i' : Option Stmt}
    (hi : Option.Rel (Stmt.Like L) i i') {e e' : Expr} (he : e.Like L e') {n n' : Option Expr}
    (hn : Option.Rel (Expr.Like L) n n') {s s' : Stmt} (hs : s.Like L s') :
    (Stmt.forLoop t i e n s).Like L (Stmt.forLoop t' i' e' n' s') := by
  cases hn with
  | none =>
    cases hi with
    | none => exact .whileLoop ht he hs
    | some hi => exact .block ht (.cons hi (.cons (.whileLoop ht he hs) .nil))
  | some hn =>
    have hb := Stmt.Like.block ht (.cons hs (.cons (.expr hn.span hn) .nil))
    cases hi with
    | none => exact .whileLoop ht he hb
    | some hi => exact .block ht (.cons hi (.cons (.whileLoop ht he hb) .nil))

namespace Reader

/-- What readers of statements do on cursors that are alike, when the first one has the fuel `n`. -/
structure StatementTwins (L : Likeness) (N : Nat → Nat → Prop) (us : Option (List Token))
    (n : Nat) : Prop where
  declaration {m c c'} : c.Like L N us c' → 4 * c.rest.length + 4 ≤ n → 4 * c'.rest.length + 4 ≤ m →
    Twins L N us True (declaration n) c (declaration m) c' (Stmt.LikeFrom L c) ∧
      (c.rest ≠ [] → (declaration n c).2.rest.length < c.rest.length)
  declarations {m c c'} : c.Like L N us c' → 4 * c.rest.length + 5 ≤ n →
    4 * c'.rest.length + 5 ≤ m →
    Twins L N us False (declarations n) c (declarations m) c' fun ss ss' _ =>
      List.Forall₂ (Stmt.Like L) ss ss'
  block {m c c'} : c.Like L N us c' → 4 * c.rest.length + 2 ≤ n → 4 * c'.rest.length + 2 ≤ m →
    Twins L N us True (block n) c (block m) c' fun b b' d =>
      List.Forall₂ (Stmt.Like L) b.1 b'.1 ∧ L.span b.2 b'.2 ∧ d.rest.length < c.rest.length
  function {m c c'} (sort) : c.Like L N us c' → 4 * c.rest.length + 3 ≤ n →
  4 * c'.rest.length + 3 ≤ m →
    Twins L N us True (function n sort) c (function m sort) c' fun d d' e =>
      d.Like L d' ∧ e.rest.length < c.rest.length
  methods {m c c'} : c.Like L N us c' → 4 * c.rest.length + 4 ≤ n → 4 * c'.rest.length + 4 ≤ m →
    Twins L N us False (methods n) c (methods m) c' fun ms ms' _ =>
      List.Forall₂ (FunctionDecl.Like L) ms ms'
  classDecl {m c c'} : c.Like L N us c' → c.rest ≠ [] → 4 * c.rest.length + 1 ≤ n →
    4 * c'.rest.length + 1 ≤ m →
    Twins L N us True (classDecl n) c (classDecl m) c' (Stmt.LikeFrom L c)
  statement {m c c'} : c.Like L N us c' → 4 * c.rest.length + 3 ≤ n → 4 * c'.rest.length + 3 ≤ m →
    Twins L N us True (statement n) c (statement m) c' (Stmt.LikeFrom L c)
  ifStmt {m c c'} : c.Like L N us c' → c.rest ≠ [] → 4 * c.rest.length + 2 ≤ n →
    4 * c'.rest.length + 2 ≤ m →
    Twins L N us True (ifStmt n) c (ifStmt m) c' (Stmt.LikeFrom L c)
  whileStmt {m c c'} : c.Like L N us c' → c.rest ≠ [] → 4 * c.rest.length + 2 ≤ n →
    4 * c'.rest.length + 2 ≤ m →
    Twins L N us True (whileStmt n) c (whileStmt m) c' (Stmt.LikeFrom L c)
  forStmt {m c c'} : c.Like L N us c' → c.rest ≠ [] → 4 * c.rest.length + 2 ≤ n →
    4 * c'.rest.length + 2 ≤ m →
    Twins L N us True (forStmt n) c (forStmt m) c' (Stmt.LikeFrom L c)

/-! ### At the end -/

section

variable (hc : c.rest = []) {C : Prop} {n : Nat}

include hc

private theorem ends_expressionStmt : expressionStmt.Ends C c := (ends_expression hc).bind_closed

theorem ends_statement (hn : 1 ≤ n) : (statement n).Ends C c := by
  obtain ⟨n, rfl⟩ := Nat.exists_eq_add_of_le' hn
  refine (ends_expressionStmt hc).congr ?_
  rw [statement, ask_bind, Cursor.kind, hc]

theorem ends_declarations (hn : 1 ≤ n) : (declarations n).Ends False c := by
  obtain ⟨n, rfl⟩ := Nat.exists_eq_add_of_le' hn
  refine (ends_pure (a := []) hc).congr ?_
  rw [declarations, ask_bind, Cursor.atEnd, hc]
  simp

private theorem ends_methods (hn : 1 ≤ n) : (methods n).Ends False c := by
  obtain ⟨n, rfl⟩ := Nat.exists_eq_add_of_le' hn
  refine (ends_pure (a := []) hc).congr ?_
  rw [methods, ask_bind, Cursor.atEnd, hc]
  simp

end

end Reader

/-! ### Recovery -/

namespace Cursor

theorem length_advance_le (c : Cursor) : c.advance.rest.length ≤ c.rest.length := by
  by_cases hc : c.rest = []
  · simp [advance, hc]
  · exact Nat.le_of_lt (Reader.length_advance hc)

private theorem length_skipStatement (n : Nat) (c : Cursor) :
    (c.skipStatement n).rest.length ≤ c.rest.length := by
  induction n generalizing c with
  | zero => exact Nat.le_refl _
  | succ n ih =>
    unfold skipStatement
    split
    · exact Nat.le_refl _
    · split
      · exact c.length_advance_le
      · exact Nat.le_trans (ih _) c.length_advance_le

private theorem errors_skipStatement (n : Nat) (c : Cursor) :
    (c.skipStatement n).errors = c.errors := by
  induction n generalizing c with
  | zero => rfl
  | succ n ih =>
    unfold skipStatement
    split
    · rfl
    · split
      · exact Reader.errors_advance c
      · exact (ih _).trans (Reader.errors_advance c)

/-- Recovery moves past a token, if one is left. -/
theorem length_recover (hc : c.rest ≠ []) : c.recover.rest.length < c.rest.length := by
  unfold recover
  split
  · exact Reader.length_advance hc
  · exact Nat.lt_of_le_of_lt (length_skipStatement _ _) (Reader.length_advance hc)

theorem rest_recover (hc : c.rest = []) : c.recover.rest = [] := by
  have hs : c.isSymbol .semicolon = false := by simp [isSymbol, kind, hc]
  have ha : c.advance = c := by simp [advance, hc]
  rw [recover, hs, ha, hc]
  exact hc

private theorem length_recover_le (c : Cursor) : c.recover.rest.length ≤ c.rest.length := by
  by_cases hc : c.rest = []
  · rw [rest_recover hc]
    exact Nat.zero_le _
  · exact Nat.le_of_lt (length_recover hc)

@[simp] theorem errors_recover (c : Cursor) : c.recover.errors = c.errors := by
  unfold recover
  split
  · exact Reader.errors_advance c
  · exact (errors_skipStatement _ _).trans (Reader.errors_advance c)

theorem skipStatement_of_rest (hc : c.rest = []) (n : Nat) : c.skipStatement n = c := by
  cases n with
  | zero => rfl
  | succ n => simp [skipStatement, atEnd, hc]

/-- Both skip the same tokens, or the first one finds no end of the statement. -/
theorem Like.skipStatement {n n' : Nat} (h : c.Like L N us c') (hn : c.rest.length ≤ n)
    (hn' : c'.rest.length ≤ n') :
    (c.skipStatement n).Lost us ∨ (c.skipStatement n).Like L N us (c'.skipStatement n') := by
  induction n generalizing n' c c' with
  | zero =>
    have hc : c.rest = [] := List.eq_nil_of_length_eq_zero (Nat.le_zero.mp hn)
    by_cases hl : c.Lost us
    · exact .inl hl
    · rw [skipStatement_of_rest ((h.rest_eq_nil hl).mpr hc)]
      exact .inr h
  | succ n ih =>
    by_cases hl : c.Lost us
    · rw [skipStatement_of_rest hl.2]
      exact .inl hl
    · have hk := h.kind hl
      cases n' with
      | zero =>
        have hc' : c'.rest = [] := List.eq_nil_of_length_eq_zero (Nat.le_zero.mp hn')
        rw [skipStatement_of_rest ((h.rest_eq_nil hl).mp hc')]
        exact .inr h
      | succ n' =>
        have hstarts : c'.startsStatement = c.startsStatement := by
          rw [startsStatement, startsStatement, hk]
        have hsymbol : c'.isSymbol .semicolon = c.isSymbol .semicolon := by
          rw [isSymbol, isSymbol, hk]
        rw [Cursor.skipStatement, Cursor.skipStatement, h.atEnd hl, hstarts, hsymbol]
        split
        · exact .inr h
        · rename_i hs
          have hc : c.rest ≠ [] := fun hc => hs (by simp [Cursor.atEnd, hc])
          have hlt := Reader.length_advance hc
          have hlt' := Reader.length_advance (mt (h.rest_eq_nil hl).mp hc)
          split
          · exact .inr (h.advance hl)
          · exact ih (h.advance hl) (by omega) (by omega)

/-- Both go on at the same token, or the first one finds none. -/
theorem Like.recover (h : c.Like L N us c') (hc : ¬ c.Lost us) :
    c.recover.Lost us ∨ c.recover.Like L N us c'.recover := by
  have hs : c'.isSymbol .semicolon = c.isSymbol .semicolon := by rw [isSymbol, isSymbol, h.kind hc]
  unfold Cursor.recover
  rw [hs]
  split
  · exact .inr (h.advance hc)
  · exact (h.advance hc).skipStatement c.length_advance_le c'.length_advance_le

private theorem Like.isKeyword_else (h : c.Like L N us c') (hus : Token.NoElse (us.getD [])) :
    c'.isKeyword .else = c.isKeyword .else := by
  by_cases hl : c.Lost us
  · obtain ⟨ts, hts, hrest⟩ := h.rest
    rw [hl.2] at hts
    cases hts
    have hk : c.isKeyword .else = false := by simp [isKeyword, Cursor.kind, hl.2]
    rw [hk, isKeyword, Cursor.kind, hrest]
    generalize us.getD [] = vs at hus
    cases vs with
    | nil => rfl
    | cons t vs =>
      have ht := hus t rfl
      simp only [List.nil_append]
      split
      · rename_i w hw
        exact decide_eq_false fun he => ht (by rw [hw, he])
      · rfl
  · rw [isKeyword, isKeyword, h.kind hl]

theorem Like.tooManyErrors (h : c.Like L N us c') : c'.tooManyErrors = c.tooManyErrors := by
  have hlen := h.errors.length_eq
  rw [Array.length_toList, Array.length_toList] at hlen
  rw [Cursor.tooManyErrors, Cursor.tooManyErrors, hlen]

end Cursor

namespace Reader

variable {α α' : Type} {r : Reader α} {r' : Reader α'} {Q : α → α' → Cursor → Prop}

section

open StatementRuns

theorem recovered_of_none {o : Option Stmt × Cursor} (h : o.1 = none) :
    recovered o = (none, o.2.recover) := by
  obtain ⟨_ | s, d⟩ := o
  · rfl
  · cases h

theorem recovered_of_some {o : Option Stmt × Cursor} {s : Stmt} (h : o.1 = some s) :
    recovered o = o := by
  obtain ⟨_ | t, d⟩ := o
  · cases h
  · rfl

variable {r r' : Reader Stmt} {Q : Stmt → Stmt → Cursor → Prop} {C : Prop}

theorem Keeps.recovered (h : r.Keeps c) : Keeps (fun c => recovered (r c)) c := by
  cases hr : (r c).1 with
  | none =>
    have ho := recovered_of_none hr
    refine ⟨?_, ?_, fun _ => ?_⟩ <;> simp only [ho, Cursor.errors_recover]
    · exact Nat.le_trans (Cursor.length_recover_le _) h.shorter
    · exact h.errors
    · exact h.fails hr
  | some s =>
    have ho := recovered_of_some hr
    refine ⟨?_, ?_, fun hn => ?_⟩ <;> simp only [ho] at *
    · exact h.shorter
    · exact h.errors
    · exact h.fails hn

theorem Ends.recovered (h : r.Ends True c) : Ends C (fun c => recovered (r c)) c := by
  have ho := recovered_of_none (h.failed trivial)
  refine ⟨h.toKeeps.recovered, ?_, fun _ => ?_⟩ <;> simp only [ho]
  exact Cursor.rest_recover h.rest

/-- Readers that are closed go together when they recover from a failure. -/
theorem Twins.recovered (h : Twins L N us True r c r' c' Q) :
    Twins L N us True (fun c => recovered (r c)) c (fun c => recovered (r' c)) c' Q := by
  refine ⟨h.toKeeps.recovered, ?_⟩
  unfold Together
  obtain ⟨hl, hn⟩ | ⟨hd, ⟨hn, hn'⟩ | ⟨s, s', hs, hs', hq⟩⟩ := h.together <;> beta_reduce
  · rw [recovered_of_none (hn trivial)]
    exact .inl ⟨⟨hl.1, Cursor.rest_recover hl.2⟩, fun _ => rfl⟩
  · rw [recovered_of_none hn, recovered_of_none hn']
    by_cases hl : (r c).2.Lost us
    · exact .inl ⟨⟨hl.1, Cursor.rest_recover hl.2⟩, fun _ => rfl⟩
    · exact (hd.recover hl).imp (fun hl => ⟨hl, fun _ => rfl⟩) fun hd => ⟨hd, .inl ⟨rfl, rfl⟩⟩
  · rw [recovered_of_some hs, recovered_of_some hs']
    exact .inr ⟨hd, .inr ⟨s, s', hs, hs', hq⟩⟩

/-- Reading moves past a token, be it in recovering. -/
theorem recovered_shorter (hr : r.Keeps c) (hc : c.rest ≠ [])
    (h : ∀ s, (r c).1 = some s → (r c).2.rest.length < c.rest.length) :
    (StatementRuns.recovered (r c)).2.rest.length < c.rest.length := by
  cases ho : (r c).1 with
  | none =>
    rw [recovered_of_none ho]
    by_cases hd : (r c).2.rest = []
    · simp only [Cursor.rest_recover hd]
      exact List.length_pos_of_ne_nil hc
    · exact Nat.lt_of_lt_of_le (Cursor.length_recover hd) hr.shorter
  | some s =>
    rw [recovered_of_some ho]
    exact h s ho

end

theorem Twins.attempt (h : Twins L N us True r c r' c' Q) :
    Twins L N us False (attempt r) c (attempt r') c' fun o o' d =>
      d = (r c).2 ∧ Option.Rel (Q · · d) o o' := by
  refine ⟨⟨h.shorter, h.errors, nofun⟩, h.together.imp (fun hl => ⟨hl.1, False.elim⟩) fun ht => ?_⟩
  refine ⟨ht.1, .inr ⟨_, _, rfl, rfl, rfl, ?_⟩⟩
  obtain ⟨hn, hn'⟩ | ⟨a, a', ha, ha', hq⟩ := ht.2
  · rw [hn, hn']
    exact .none
  · rw [ha, ha']
    exact .some hq

namespace StatementTwins

variable {n n' : Nat}

open StatementRuns in
theorem declarationOf (hN : L.Numbers N) (ih : StatementTwins L N us n) (h : c.Like L N us c')
    (hl : ¬ c.Lost us) (hn : 4 * c.rest.length + 4 ≤ n + 1)
    (hn' : 4 * c'.rest.length + 4 ≤ n' + 1) :
    Twins L N us True (declarationOf n c.kind) c (declarationOf n' c'.kind) c'
      (Stmt.LikeFrom L c) := by
  have hrest : c.kind ≠ .eof → c.rest ≠ [] := fun hk hr => hk (by rw [Cursor.kind, hr])
  have hstatement := ih.statement h (m := n') (by omega) (by omega)
  rw [h.kind hl]
  generalize c.kind = k at hrest
  cases k with
  | number | string | identifier | symbol | eof => exact hstatement
  | keyword w =>
    have hc := hrest (by simp)
    cases w with
    | cls => exact ih.classDecl h hc (by omega) (by omega)
    | «fun» =>
      refine (Twins.advance h hc).next fun _ _ d d' hd _ hlt => ?_
      have hlt := hlt.2
      have hlen := h.length
      have hlen' := hd.length
      refine (ih.function "function" hd (by omega) (by omega)).next fun f f' g g' hg _ hf => ?_
      exact .pure hg ⟨.function hf.1, Nat.lt_trans hf.2 hlt⟩
    | var => exact Twins.varDecl hN h hc
    | and | «else» | «false» | «for» | «if» | nil | or | print | «return» | super | this | «true»
    | «while» =>
      exact hstatement

open StatementRuns in
theorem declaration_succ (hN : L.Numbers N) (ih : StatementTwins L N us n) (h : c.Like L N us c')
    (hn : 4 * c.rest.length + 4 ≤ n + 1) (hn' : 4 * c'.rest.length + 4 ≤ n' + 1) :
    Twins L N us True (Reader.declaration (n + 1)) c (Reader.declaration (n' + 1)) c'
      (Stmt.LikeFrom L c) ∧
      (c.rest ≠ [] → (Reader.declaration (n + 1) c).2.rest.length < c.rest.length) := by
  by_cases hl : c.Lost us
  · refine ⟨Ends.twins (Ends.congr (ends_statement hl.2 (n := n) (by omega)).recovered ?_) hl.1,
      fun hc => absurd hl.2 hc⟩
    rw [declaration_eq, Cursor.kind, hl.2]
    rfl
  · have hof := declarationOf hN ih h hl hn hn'
    refine ⟨hof.recovered.congr (declaration_eq n c) (declaration_eq n' c'), fun hc => ?_⟩
    rw [declaration_eq]
    refine recovered_shorter hof.toKeeps hc fun s hs => ?_
    obtain ⟨-, hnone⟩ | ⟨-, ⟨hnone, -⟩ | ⟨_, _, _, _, hq⟩⟩ := hof.together
    · rw [hnone trivial] at hs
      cases hs
    · rw [hnone] at hs
      cases hs
    · exact hq.2

theorem declarations_succ (ih : StatementTwins L N us n) (h : c.Like L N us c')
    (hn : 4 * c.rest.length + 5 ≤ n + 1) (hn' : 4 * c'.rest.length + 5 ≤ n' + 1) :
    Twins L N us False (Reader.declarations (n + 1)) c (Reader.declarations (n' + 1)) c'
      fun ss ss' _ => List.Forall₂ (Stmt.Like L) ss ss' := by
  by_cases hl : c.Lost us
  · exact (ends_declarations hl.2 (Nat.le_add_left 1 n)).twins hl.1
  rw [Reader.declarations, Reader.declarations]
  refine .peek (fun hl => ?_) (fun hl' => absurd hl' hl) fun _ => ?_
  · rw [Cursor.isSymbol, Cursor.isSymbol, h.kind hl, h.atEnd hl, h.tooManyErrors]
  split
  · exact .pure h .nil
  · rename_i hstop
    have hc : c.rest ≠ [] := fun hc => hstop (by simp [Cursor.atEnd, hc])
    obtain ⟨hdecl, hlt⟩ := ih.declaration h (m := n') (by omega) (by omega)
    have hlt := hlt hc
    have hlen := h.length
    refine hdecl.attempt.bind (fun _ o d hd => ?_) fun o o' d d' hd _ ho => ?_
    · exact (ends_declarations hd (by omega)).bind fun _ ss e _ he => ends_pure he
    · obtain ⟨rfl, ho⟩ := ho
      have hlen' := hd.length
      refine (ih.declarations hd (by omega) (by omega)).bind (fun _ ss e he => ends_pure he)
        fun ss ss' e e' he _ hss => .pure he ?_
      cases ho with
      | none => exact hss
      | some hs => exact .cons hs.1 hss

theorem block_succ (hN : L.Numbers N) (ih : StatementTwins L N us n) (h : c.Like L N us c')
    (hn : 4 * c.rest.length + 2 ≤ n + 1) (hn' : 4 * c'.rest.length + 2 ≤ n' + 1) :
    Twins L N us True (Reader.block (n + 1)) c (Reader.block (n' + 1)) c' fun b b' d =>
      List.Forall₂ (Stmt.Like L) b.1 b'.1 ∧ L.span b.2 b'.2 ∧ d.rest.length < c.rest.length := by
  rw [Reader.block, Reader.block]
  refine (Twins.expect h .leftBrace _).next fun s s' d d' hd _ hs => ?_
  have hlt := hs.2
  have hlen := h.length
  have hlen' := hd.length
  refine (ih.declarations hd (by omega) (by omega)).bind
    (fun _ b e he => (ends_expect _ _ he).bind_closed)
    fun b b' e e' he _ hb => ?_
  refine (Twins.expect he .rightBrace _).next fun t t' f f' hf _ ht => .pure hf ⟨hb, ?_, ?_⟩
  · exact hN.merge hs.1 ht.1
  · omega

theorem function_succ (hN : L.Numbers N) (ih : StatementTwins L N us n) (h : c.Like L N us c')
    (sort : String) (hn : 4 * c.rest.length + 3 ≤ n + 1) (hn' : 4 * c'.rest.length + 3 ≤ n' + 1) :
    Twins L N us True (Reader.function (n + 1) sort) c (Reader.function (n' + 1) sort)
      c' fun d d' e =>
      d.Like L d' ∧ e.rest.length < c.rest.length := by
  rw [Reader.function, Reader.function]
  refine (Twins.name h _).next fun x x' d d' hd _ hx => ?_
  refine (Twins.parameterList hd sort).next fun xs xs' e e' he _ hxs => ?_
  have hlt := hx.2
  have hlen := h.length
  have hlen' := he.length
  refine .peek (fun hl => by
    rw [Cursor.isSymbol, Cursor.isSymbol, he.kind hl]) (fun hl => ?_) fun _ => ?_
  · rw [Cursor.isSymbol, Cursor.kind, hl.2]
    exact ends_report _ hl.2
  · split
    · refine (ih.block he (by omega) (by omega)).next fun b b' f f' hf _ hb => .pure hf ⟨?_, ?_⟩
      · exact .mk hx.1 hxs hb.1 (hN.merge hx.1.span hb.2.1)
      · have hlt' := hb.2.2
        omega
    · exact .fail he _

theorem methods_succ (ih : StatementTwins L N us n) (h : c.Like L N us c')
    (hn : 4 * c.rest.length + 4 ≤ n + 1) (hn' : 4 * c'.rest.length + 4 ≤ n' + 1) :
    Twins L N us False (Reader.methods (n + 1)) c (Reader.methods (n' + 1)) c'
      fun ms ms' _ => List.Forall₂ (FunctionDecl.Like L) ms ms' := by
  by_cases hl : c.Lost us
  · exact (ends_methods hl.2 (Nat.le_add_left 1 n)).twins hl.1
  rw [Reader.methods, Reader.methods]
  refine .peek (fun hl => ?_) (fun hl' => absurd hl' hl) fun _ => ?_
  · rw [Cursor.isSymbol, Cursor.isSymbol, h.kind hl, h.atEnd hl]
  split
  · exact .pure h .nil
  · refine (ih.function "method" h (by omega) (by omega)).next fun m m' d d' hd _ hm => ?_
    have hlt := hm.2
    have hlen := h.length
    have hlen' := hd.length
    exact (ih.methods hd (by omega) (by omega)).bind (fun _ ms e he => ends_pure he)
      fun ms ms' e e' he _ hms => .pure he (.cons hm.1 hms)

theorem classDecl_succ (hN : L.Numbers N) (ih : StatementTwins L N us n) (h : c.Like L N us c')
    (hc : c.rest ≠ []) (hn : 4 * c.rest.length + 1 ≤ n + 1)
    (hn' : 4 * c'.rest.length + 1 ≤ n' + 1) :
    Twins L N us True (Reader.classDecl (n + 1)) c (Reader.classDecl (n' + 1)) c'
      (Stmt.LikeFrom L c) := by
  rw [Reader.classDecl, Reader.classDecl]
  refine (Twins.advance h hc).next fun s s' d d' hd _ hs => ?_
  refine (Twins.name hd _).next fun x x' e e' he _ hx => ?_
  refine (Twins.superclass hN he).bind (fun _ p f hf => (ends_expect _ _ hf).bind_closed)
    fun p p' f f' hf _ hp => ?_
  refine (Twins.expect hf .leftBrace _).next fun _ _ g g' hg _ ht => ?_
  have hlt := hs.2
  have hlen := h.length
  have hlen' := hg.length
  refine (ih.methods hg (by omega) (by omega)).bind
    (fun _ ms i hi => (ends_expect _ _ hi).bind_closed)
    fun ms ms' i i' hi _ hms => ?_
  refine (Twins.expect hi .rightBrace _).next fun t t' j j' hj _ ht => .pure hj ⟨?_, ?_⟩
  · exact .classDecl (hN.merge hs.1 ht.1) hx.1 hp hms
  · omega

theorem statement_succ (hN : L.Numbers N) (ih : StatementTwins L N us n) (h : c.Like L N us c')
    (hn : 4 * c.rest.length + 3 ≤ n + 1) (hn' : 4 * c'.rest.length + 3 ≤ n' + 1) :
    Twins L N us True (Reader.statement (n + 1)) c (Reader.statement (n' + 1)) c'
      (Stmt.LikeFrom L c) := by
  by_cases hl : c.Lost us
  · exact (ends_statement hl.2 (Nat.le_add_left 1 n)).twins hl.1
  have hrest : c.kind ≠ .eof → c.rest ≠ [] := fun hk hr => hk (by rw [Cursor.kind, hr])
  have hexpr := Twins.expressionStmt hN h
  rw [Reader.statement, Reader.statement]
  refine .peek (fun hl => h.kind hl) (fun hl' => absurd hl' hl) fun _ => ?_
  generalize c.kind = k at hrest
  cases k with
  | number | string | identifier | eof => exact hexpr
  | symbol s =>
    cases s with
    | leftBrace =>
      refine (ih.block h (by omega) (by omega)).next fun b b' d d' hd _ hb => ?_
      exact .pure hd ⟨.block hb.2.1 hb.1, hb.2.2⟩
    | plus | minus | star | slash | bang | bangEq | eq | eqEq | less | lessEq | greater | greaterEq
    | leftParen
    | rightParen | rightBrace | comma | dot | semicolon => exact hexpr
  | keyword w =>
    have hc := hrest (by simp)
    cases w with
    | print => exact Twins.printStmt hN h hc
    | «if» => exact ih.ifStmt h hc (by omega) (by omega)
    | «while» => exact ih.whileStmt h hc (by omega) (by omega)
    | «for» => exact ih.forStmt h hc (by omega) (by omega)
    | «return» => exact Twins.returnStmt hN h hc
    | and | cls | «else» | «false» | «fun» | nil | or | super | this | «true» | var => exact hexpr

theorem ifStmt_succ (hN : L.Numbers N) (hus : Token.NoElse (us.getD []))
    (ih : StatementTwins L N us n) (h : c.Like L N us c') (hc : c.rest ≠ [])
    (hn : 4 * c.rest.length + 2 ≤ n + 1) (hn' : 4 * c'.rest.length + 2 ≤ n' + 1) :
    Twins L N us True (Reader.ifStmt (n + 1)) c (Reader.ifStmt (n' + 1)) c'
      (Stmt.LikeFrom L c) := by
  rw [Reader.ifStmt, Reader.ifStmt]
  have hlen := h.length
  refine (Twins.advance h hc).next fun s s' d d' hd _ hs => ?_
  refine (Twins.expect hd .leftParen _).next fun _ _ e e' he _ _ => ?_
  refine (Twins.expression hN he).bind (fun _ v f hf => (ends_expect _ _ hf).bind_closed)
    fun v v' f f' hf _ hv => ?_
  refine (Twins.expect hf .rightParen _).next fun _ _ g g' hg _ _ => ?_
  have hlt := hs.2
  have hlen' := hg.length
  refine (ih.statement hg (by omega) (by omega)).next fun y y' i i' hi _ hy => ?_
  have hlen'' := hi.length
  have hrest : ∀ o o' j j', j.Like L N us j' → j.rest.length ≤ i.rest.length →
      Option.Rel (Stmt.Like L) o o' →
      Twins L N us True
        (do let t ← Reader.previous; Pure.pure (Stmt.ifElse (s.merge t) v y o)) j
        (do let t ← Reader.previous; Pure.pure (Stmt.ifElse (s'.merge t) v' y' o')) j'
          (Stmt.LikeFrom L c) := by
    intro o o' j j' hj _ ho
    refine (Twins.previous hj).next fun t t' k k' hk _ ht => .pure hk ⟨?_, ?_⟩
    · exact .ifElse (hN.merge hs.1 ht.1) hv.1 hy.1 ho
    · omega
  refine .takeIf hi (fun _ => rfl) rest_ne_nil_of_isKeyword (hi.isKeyword_else hus)
    (fun j j' hj _ => ?_)
    (hrest none none i i' hi (Nat.le_refl _) .none)
  have hlen''' := hj.length
  refine ((ih.statement hj (by omega) (by omega)).map
    (R := fun o o' _ => Option.Rel (Stmt.Like L) o o')
    fun y y' _ _ hy => .some hy.1).next fun o o' k k' hk _ ho => hrest o o' k k' hk (by omega) ho

theorem whileStmt_succ (hN : L.Numbers N) (ih : StatementTwins L N us n)
    (h : c.Like L N us c') (hc : c.rest ≠ [])
    (hn : 4 * c.rest.length + 2 ≤ n + 1) (hn' : 4 * c'.rest.length + 2 ≤ n' + 1) :
    Twins L N us True (Reader.whileStmt (n + 1)) c (Reader.whileStmt (n' + 1)) c'
      (Stmt.LikeFrom L c) := by
  rw [Reader.whileStmt, Reader.whileStmt]
  have hlen := h.length
  refine (Twins.advance h hc).next fun s s' d d' hd _ hs => ?_
  refine (Twins.expect hd .leftParen _).next fun _ _ e e' he _ _ => ?_
  refine (Twins.expression hN he).bind (fun _ v f hf => (ends_expect _ _ hf).bind_closed)
    fun v v' f f' hf _ hv => ?_
  refine (Twins.expect hf .rightParen _).next fun _ _ g g' hg _ _ => ?_
  have hlt := hs.2
  have hlen' := hg.length
  refine (ih.statement hg (by omega) (by omega)).next fun b b' i i' hi _ hb => ?_
  refine (Twins.previous hi).next fun t t' k k' hk _ ht => .pure hk ⟨?_, ?_⟩
  · exact .whileLoop (hN.merge hs.1 ht.1) hv.1 hb.1
  · omega

theorem forStmt_succ (hN : L.Numbers N) (ih : StatementTwins L N us n)
    (h : c.Like L N us c') (hc : c.rest ≠ [])
    (hn : 4 * c.rest.length + 2 ≤ n + 1) (hn' : 4 * c'.rest.length + 2 ≤ n' + 1) :
    Twins L N us True (Reader.forStmt (n + 1)) c (Reader.forStmt (n' + 1)) c'
      (Stmt.LikeFrom L c) := by
  rw [Reader.forStmt, Reader.forStmt]
  have hlen := h.length
  refine (Twins.advance h hc).next fun s s' d d' hd _ hs => ?_
  refine (Twins.expect hd .leftParen _).next fun _ _ e e' he _ _ => ?_
  refine (Twins.forInitial hN he).next fun a a' f f' hf _ ha => ?_
  refine (Twins.expressionUnless hN hf .semicolon).bind
    (fun _ v g hg => (ends_expect _ _ hg).bind_closed)
    fun v v' g g' hg _ hv => ?_
  refine (Twins.expect hg .semicolon _).next fun t t' i i' hi _ ht => ?_
  refine (Twins.expressionUnless hN hi .rightParen).bind
    (fun _ w j hj => (ends_expect _ _ hj).bind_closed)
    fun w w' j j' hj _ hw => ?_
  refine (Twins.expect hj .rightParen _).next fun _ _ k k' hk _ _ => ?_
  have hlt := hs.2
  have hlen' := hk.length
  refine (ih.statement hk (by omega) (by omega)).next fun b b' l l' hl _ hb => ?_
  refine (Twins.previous hl).next fun u u' m m' hm _ hu => ?_
  have hspan := hN.merge hs.1 hu.1
  cases hv with
  | some hv => exact .pure hm ⟨Stmt.forLoop_like hspan ha hv hw hb.1, by omega⟩
  | none =>
    refine (Twins.site hm hN ht.1).next fun p p' o o' ho _ hp => .pure ho ⟨?_, by omega⟩
    exact Stmt.forLoop_like hspan ha (.literal hp.1) hw hb.1

end StatementTwins

/-- Readers of statements go together, whatever fuel they have, as long as it is
enough for the tokens. -/
theorem statementTwins (hN : L.Numbers N) (hus : Token.NoElse (us.getD [])) (n : Nat) :
    StatementTwins L N us n := by
  induction n with
  | zero => constructor <;> intros <;> omega
  | succ n ih =>
    have hpos : ∀ {n' : Nat}, 0 < n' →
        ∃ m, n' = m + 1 := fun h => ⟨_, (Nat.succ_pred_eq_of_pos h).symm⟩
    refine ⟨fun {n' _ _} h hn hn' => ?_, fun {n' _ _} h hn hn' => ?_, fun {n' _ _} h hn hn' => ?_,
      fun {n' _ _} sort h hn hn' => ?_, fun {n' _ _} h hn hn' => ?_, fun {n' _ _} h hc hn hn' => ?_,
      fun {n' _ _} h hn hn' => ?_, fun {n' _ _} h hc hn hn' => ?_, fun {n' _ _} h hc hn hn' => ?_,
      fun {n' _ _} h hc hn hn' => ?_⟩ <;>
      obtain ⟨m, rfl⟩ : ∃ m, n' = m + 1 := hpos (by omega)
    · exact ih.declaration_succ hN h hn hn'
    · exact ih.declarations_succ h hn hn'
    · exact ih.block_succ hN h hn hn'
    · exact ih.function_succ hN h sort hn hn'
    · exact ih.methods_succ h hn hn'
    · exact ih.classDecl_succ hN h hc hn hn'
    · exact ih.statement_succ hN h hn hn'
    · exact ih.ifStmt_succ hN hus h hc hn hn'
    · exact ih.whileStmt_succ hN h hc hn hn'
    · exact ih.forStmt_succ hN h hc hn hn'

end Reader

end Lox
