import Lox.Proofs.Likeness.Programs
/-!
# Reading on

A reader never goes back: it moves over tokens one after the other and keeps the errors found before
it. This is so for whatever fuel, since a reader that runs out of fuel stays where it is.
-/

namespace Lox

/-- `d` is reached from `c` by reading on. -/
structure Cursor.Ahead (c d : Cursor) : Prop where
  rest : ∃ ts, c.rest = ts ++ d.rest ∧ d.previous = (ts.getLast?.map Token.span).getD c.previous
  finish : d.finish = c.finish
  errors : c.errors.toList <+: d.errors.toList
  nextId : c.nextId ≤ d.nextId

namespace Cursor

variable {c d e : Cursor}

theorem isSymbol_iff {s : Symbol} : c.isSymbol s = true ↔ c.kind = .symbol s := by
  unfold isSymbol
  split
  · rename_i t ht
    rw [ht, decide_eq_true_iff]
    exact ⟨congrArg _, TokenKind.symbol.inj⟩
  · rename_i h
    exact ⟨nofun, fun hk => absurd hk (h s)⟩

theorem isKeyword_iff {v : Keyword} : c.isKeyword v = true ↔ c.kind = .keyword v := by
  unfold isKeyword
  split
  · rename_i t ht
    rw [ht, decide_eq_true_iff]
    exact ⟨congrArg _, TokenKind.keyword.inj⟩
  · rename_i h
    exact ⟨nofun, fun hk => absurd hk (h v)⟩

namespace Ahead

theorem refl (c : Cursor) : c.Ahead c := ⟨⟨[], rfl, rfl⟩, rfl, List.prefix_rfl, Nat.le_refl _⟩

theorem trans (h : c.Ahead d) (h' : d.Ahead e) : c.Ahead e := by
  obtain ⟨ts, hts, hprevious⟩ := h.rest
  obtain ⟨us, hus, hprevious'⟩ := h'.rest
  refine ⟨⟨ts ++ us, by rw [hts, hus, List.append_assoc], ?_⟩, h'.finish.trans h.finish,
    h.errors.trans h'.errors,
    Nat.le_trans h.nextId h'.nextId⟩
  rw [hprevious', hprevious]
  obtain rfl | ⟨us, u, rfl⟩ := us.eq_nil_or_concat
  · simp
  · simp [← List.append_assoc]

theorem length (h : c.Ahead d) : d.rest.length ≤ c.rest.length := by
  obtain ⟨ts, hts, -⟩ := h.rest
  simp [hts]

end Ahead

theorem ahead_advance (c : Cursor) : c.Ahead c.advance := by
  unfold advance
  split
  · exact .refl c
  · rename_i t ts hr
    exact ⟨⟨[t], hr, rfl⟩, rfl, List.prefix_rfl, Nat.le_refl _⟩

theorem ahead_reportHere (c : Cursor) (p : SyntaxProblem) : c.Ahead (c.reportHere p) :=
  ⟨⟨[], rfl, rfl⟩, rfl, by simp [reportHere], Nat.le_refl _⟩

private theorem ahead_reportAt (c : Cursor) (p : SyntaxProblem) (s : Span) :
    c.Ahead (c.reportAt p s) :=
  ⟨⟨[], rfl, rfl⟩, rfl, by simp [reportAt], Nat.le_refl _⟩

private theorem ahead_skipStatement (n : Nat) (c : Cursor) : c.Ahead (c.skipStatement n) := by
  induction n generalizing c with
  | zero => exact .refl c
  | succ n ih =>
    unfold skipStatement
    split
    · exact .refl c
    · split
      · exact c.ahead_advance
      · exact c.ahead_advance.trans (ih _)

private theorem ahead_recover (c : Cursor) : c.Ahead c.recover := by
  unfold recover
  split
  · exact c.ahead_advance
  · exact c.ahead_advance.trans (ahead_skipStatement _ _)

end Cursor

namespace Reader

variable {α β : Type}

/-- `r` reads on. -/
class Onward (r : Reader α) : Prop where
  ahead : ∀ c : Cursor, c.Ahead (r c).2

variable {r : Reader α} {f : α → Reader β} {c : Cursor} {a : α}

/-- `r` loses no error. -/
theorem Onward.errors [r.Onward] (c : Cursor) : c.errors.toList <+: (r c).2.errors.toList :=
  (Onward.ahead (r := r) c).errors

/-! ### Primitive readers -/

instance (a : α) : (pure a : Reader α).Onward := ⟨.refl⟩

instance : (fail : Reader α).Onward := ⟨.refl⟩

instance (g : Cursor → α) : (ask g).Onward := ⟨.refl⟩

instance : previous.Onward := inferInstanceAs (ask Cursor.previous).Onward

instance : here.Onward := inferInstanceAs (ask Cursor.span).Onward

instance (s : Symbol) : (isSymbol s).Onward := inferInstanceAs (ask (·.isSymbol s)).Onward

instance (s : Span) : (site s).Onward :=
  ⟨fun _ => ⟨⟨[], rfl, rfl⟩, rfl, List.prefix_rfl, Nat.le_succ _⟩⟩

instance (p : SyntaxProblem) : (report p).Onward := ⟨(·.ahead_reportHere p)⟩

instance (p : SyntaxProblem) (s : Span) : (change (·.reportAt p s)).Onward :=
  ⟨(·.ahead_reportAt p s)⟩

instance : advance.Onward := ⟨Cursor.ahead_advance⟩

theorem onward_takeIf {r : Reader Bool} {p : Cursor → Bool}
    (hr : ∀ c, r c = if p c then (some true, c.advance) else (some false, c)) :
    r.Onward := ⟨fun c => by
  rw [hr]
  split
  · exact c.ahead_advance
  · exact .refl c⟩

instance (s : Symbol) : (eat s).Onward := onward_takeIf (p := (·.isSymbol s)) fun _ => rfl

instance (w : Keyword) : (eatKeyword w).Onward := onward_takeIf (p := (·.isKeyword w)) fun _ => rfl

instance (s : Symbol) (place : String) : (expect s place).Onward := ⟨fun c => by
  unfold expect
  split
  · exact c.ahead_advance
  · exact c.ahead_reportHere _⟩

instance (role : String) : (name role).Onward := ⟨fun c => by
  unfold name
  split
  · exact c.ahead_advance
  · exact c.ahead_reportHere _⟩

/-! ### Pieces of readers -/

theorem Onward.bind (h : r.Onward) (hf : ∀ a, (f a).Onward) : (r >>= f).Onward := ⟨fun c => by
  cases hr : (r c).1 with
  | none =>
    rw [bind_of_none hr]
    exact h.ahead c
  | some a =>
    rw [bind_of_some hr]
    exact (h.ahead c).trans ((hf a).ahead _)⟩

instance [h : r.Onward] [hf : ∀ a, (f a).Onward] : (r >>= f).Onward := h.bind hf

theorem onward_ask_bind {g : Cursor → α} (h : ∀ a, (f a).Onward) : (ask g >>= f).Onward :=
  .bind inferInstance h

instance {g : α → β} [r.Onward] : (g <$> r).Onward :=
  inferInstanceAs (r >>= fun a => pure (g a)).Onward

instance [r.Onward] : (attempt r).Onward := ⟨Onward.ahead (r := r)⟩

instance {p : Prop} [Decidable p] {s : Reader α} [r.Onward] [s.Onward] :
    (if p then r else s).Onward := by
  split <;> assumption

/-- A reader may be given fuel that depends on where it starts. -/
theorem onward_fuelled {r : Nat → Reader α} [∀ n, (r n).Onward] (g : Cursor → Nat) :
    Onward fun c => r (g c) c := ⟨fun c => Onward.ahead (r := r (g c)) c⟩

/-! ### The readers of expressions and statements -/

/-- The readers of expressions that nest no deeper than `n`. -/
structure ExpressionOnward (n : Nat) : Prop where
  assignment : (assignment n).Onward
  level : ∀ l, (level n l).Onward
  moreOperands : ∀ l e, (moreOperands n l e).Onward
  operand : ∀ l, (operand n l).Onward
  unary : (unary n).Onward
  calls : ∀ e, (calls n e).Onward
  arguments : ∀ count, (arguments n count).Onward
  primary : (primary n).Onward

instance (l : Expr) (op : InfixOp) (t : Span) (r : Expr) : (infixNode l op t r).Onward := by
  cases op <;> unfold infixNode <;> infer_instance

instance (e : Expr) (t : Span) (v : Expr) : (assignNode e t v).Onward := by
  unfold assignNode
  split <;> infer_instance

instance (start : Span) (v : Option Literal) : (literalOf start v).Onward := by
  cases v <;> unfold literalOf <;> infer_instance

theorem expressionOnward (n : Nat) : ExpressionOnward n := by
  induction n with
  | zero => constructor <;> intros <;> exact inferInstanceAs (fail : Reader _).Onward
  | succ n ih =>
    obtain ⟨_, _, _, _, _, _, _, _⟩ := ih
    constructor
    · unfold assignment
      infer_instance
    · unfold level
      infer_instance
    · intro l e
      refine onward_ask_bind fun k => ?_
      split <;> infer_instance
    · intro l
      unfold operand
      split <;> infer_instance
    · refine onward_ask_bind fun k => ?_
      split <;> infer_instance
    · unfold calls
      infer_instance
    · unfold arguments
      infer_instance
    · refine onward_ask_bind fun start => onward_ask_bind fun k => ?_
      split
      case h_5 => exact inferInstanceAs (literalOf start (Literal.ofToken? k)).Onward
      all_goals infer_instance

instance (n : Nat) : (assignment n).Onward := (expressionOnward n).assignment

instance (n : Nat) (l : Level) : (level n l).Onward := (expressionOnward n).level l

instance (n : Nat) (l : Level) (e : Expr) : (moreOperands n l e).Onward :=
  (expressionOnward n).moreOperands l e

instance (n : Nat) (l : Level) : (operand n l).Onward := (expressionOnward n).operand l

instance (n : Nat) : (unary n).Onward := (expressionOnward n).unary

instance (n : Nat) (e : Expr) : (calls n e).Onward := (expressionOnward n).calls e

instance (n count : Nat) : (arguments n count).Onward := (expressionOnward n).arguments count

instance (n : Nat) : (primary n).Onward := (expressionOnward n).primary

instance (n : Nat) (e : Expr) (es : List Expr) :
    (callRest n e es).Onward := by unfold callRest; infer_instance

instance : expression.Onward := onward_fuelled (r := assignment) expressionFuel

instance (s : Symbol) : (expressionUnless s).Onward := by unfold expressionUnless; infer_instance

instance (n count : Nat) : (parameters n count).Onward := by
  induction n generalizing count with
  | zero => exact inferInstanceAs fail.Onward
  | succ n ih =>
    unfold parameters
    infer_instance

/-- One parameter and those that follow it, with fuel that is enough for the tokens left. -/
def someParameters : Reader (List Ident) := fun c => parameters (c.rest.length + 1) 0 c

instance : someParameters.Onward :=
  onward_fuelled (r := fun n => parameters n 0) fun c => c.rest.length + 1

/-- What follows the parameters of a function. -/
def parametersEnd (ps : List Ident) : Reader (List Ident) := do
  let _ ← expect .rightParen "after parameters"
  pure ps

instance (ps : List Ident) : (parametersEnd ps).Onward := by unfold parametersEnd; infer_instance

theorem parameterList_eq (sort : String) : parameterList sort = (do
    let _ ← expect .leftParen s!"after {sort} name"
    if ← isSymbol .rightParen then parametersEnd []
    else do
      let ps ← someParameters
      parametersEnd ps) := rfl

instance (sort : String) : (parameterList sort).Onward := by
  rw [parameterList_eq]
  infer_instance

instance : varDecl.Onward := by unfold varDecl; infer_instance

instance : printStmt.Onward := by unfold printStmt; infer_instance

instance : returnStmt.Onward := by unfold returnStmt; infer_instance

instance : expressionStmt.Onward := by unfold expressionStmt; infer_instance

instance : forInitial.Onward := by unfold forInitial; infer_instance

instance : superclass.Onward := by unfold superclass; infer_instance

/-- What follows the branches of a conditional. -/
def ifEnd (start : Span) (condition : Expr) (yes : Stmt) (no : Option Stmt) : Reader Stmt := do
  pure (.ifElse (start.merge (← previous)) condition yes no)

instance (start : Span) (e : Expr) (yes : Stmt) (no : Option Stmt) :
    (ifEnd start e yes no).Onward := by
  unfold ifEnd
  infer_instance

theorem ifStmt_eq (n : Nat) : ifStmt (n + 1) = (do
    let start ← advance
    let _ ← expect .leftParen "after 'if'"
    let condition ← expression
    let _ ← expect .rightParen "after if condition"
    let yes ← statement n
    if ← eatKeyword .else then
      let no ← some <$> statement n
      ifEnd start condition yes no
    else ifEnd start condition yes none) := rfl

/-- What follows the body of a `for` loop. -/
def forEnd (start : Span) (initial : Option Stmt) (conditionEnd : Span) (increment : Option Expr)
    (body : Stmt) :
    Option Expr → Reader Stmt
  | some e => do
    let span := start.merge (← previous)
    pure (.forLoop span initial e increment body)
  | none => do
    let span := start.merge (← previous)
    let s ← site conditionEnd
    pure (.forLoop span initial (.literal s (.bool true)) increment body)

instance (start : Span) (i : Option Stmt) (t : Span) (d : Option Expr) (b : Stmt)
    (e : Option Expr) : (forEnd start i t d b e).Onward := by
  cases e <;> unfold forEnd <;> infer_instance

theorem forStmt_eq (n : Nat) : forStmt (n + 1) = (do
    let start ← advance
    let _ ← expect .leftParen "after 'for'"
    let initial ← forInitial
    let condition ← expressionUnless .semicolon
    let conditionEnd ← expect .semicolon "after loop condition"
    let increment ← expressionUnless .rightParen
    let _ ← expect .rightParen "after for clauses"
    let body ← statement n
    forEnd start initial conditionEnd increment body condition) := by
  rw [forStmt]
  refine bind_congr fun _ => bind_congr fun _ => bind_congr fun _ => bind_congr fun condition => ?_
  refine bind_congr fun _ => bind_congr fun _ => bind_congr fun _ => bind_congr fun _ => ?_
  cases condition <;> rfl

/-- The readers of statements that nest no deeper than `n`. -/
structure StatementOnward (n : Nat) : Prop where
  declaration : (declaration n).Onward
  declarations : (declarations n).Onward
  block : (block n).Onward
  function : ∀ sort, (function n sort).Onward
  methods : (methods n).Onward
  classDecl : (classDecl n).Onward
  statement : (statement n).Onward
  ifStmt : (ifStmt n).Onward
  whileStmt : (whileStmt n).Onward
  forStmt : (forStmt n).Onward

private theorem onward_recovered {r : Reader Stmt} (h : r.Onward) :
    Onward fun c => StatementRuns.recovered (r c) where
  ahead c := by
    have hc := h.ahead c
    change c.Ahead (StatementRuns.recovered (r c)).2
    generalize r c = o at hc ⊢
    obtain ⟨_ | s, d⟩ := o
    · exact hc.trans d.ahead_recover
    · exact hc

theorem statementOnward (n : Nat) : StatementOnward n := by
  induction n with
  | zero => constructor <;> intros <;> exact inferInstanceAs (fail : Reader _).Onward
  | succ n ih =>
    obtain ⟨_, _, _, _, _, _, _, _, _, _⟩ := ih
    constructor
    · have hkind : ∀ k, (StatementRuns.declarationOf n k).Onward := by
        intro k
        unfold StatementRuns.declarationOf
        split <;> infer_instance
      refine ⟨fun c => ?_⟩
      rw [StatementRuns.declaration_eq]
      exact (onward_recovered (hkind c.kind)).ahead c
    · unfold declarations
      infer_instance
    · unfold block
      infer_instance
    · intro sort
      unfold function
      infer_instance
    · unfold methods
      infer_instance
    · unfold classDecl
      infer_instance
    · unfold statement
      refine onward_ask_bind fun k => ?_
      split <;> infer_instance
    · rw [ifStmt_eq]
      infer_instance
    · unfold whileStmt
      infer_instance
    · rw [forStmt_eq]
      infer_instance

instance (n : Nat) : (declaration n).Onward := (statementOnward n).declaration

instance (n : Nat) : (declarations n).Onward := (statementOnward n).declarations

instance (n : Nat) : (block n).Onward := (statementOnward n).block

instance (n : Nat) (sort : String) : (function n sort).Onward := (statementOnward n).function sort

instance (n : Nat) : (methods n).Onward := (statementOnward n).methods

instance (n : Nat) : (classDecl n).Onward := (statementOnward n).classDecl

instance (n : Nat) : (statement n).Onward := (statementOnward n).statement

instance (n : Nat) : (ifStmt n).Onward := (statementOnward n).ifStmt

instance (n : Nat) : (whileStmt n).Onward := (statementOnward n).whileStmt

instance (n : Nat) : (forStmt n).Onward := (statementOnward n).forStmt

instance : nextDeclaration.Onward :=
  onward_fuelled (r := declaration) fun c => 4 * (c.rest.length + 1)

instance (n : Nat) : (topLevel n).Onward := by
  induction n with
  | zero => exact inferInstanceAs fail.Onward
  | succ n ih =>
    exact onward_ask_bind fun b => inferInstanceAs (if b = true then pure [] else do
      let s ← attempt nextDeclaration
      let ss ← topLevel n
      pure (s.toList ++ ss) : Reader (List Stmt)).Onward

end Reader

end Lox
