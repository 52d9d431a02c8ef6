import Lox.Syntax.Statement
import Lox.Proofs.Reading.Expression
/-!
# Reading statements keeps them fit

A statement that is read as a branch or as the body of a loop is not a declaration. The missing
condition of a `for` loop gets its number last, though it stands before the body.
-/

namespace Lox

variable {P : Position → Prop} {N : String → Prop} {c : Cursor}

/-- Whether all in a statement is fit, its numbers being those from `lo` up to `hi`. -/
def Stmt.Fit (P : Position → Prop) (N : String → Prop) (lo hi : Nat) (s : Stmt) : Prop :=
  Lox.Fit P N lo hi s.sights

/-- A statement that is not a declaration. -/
structure Stmt.FitBranch (P : Position → Prop) (N : String → Prop) (lo hi : Nat) (s : Stmt) :
    Prop where
  fit : s.Fit P N lo hi
  branch : s.declares? = none

/-- A function with its name. -/
def FunctionDecl.Fit (P : Position → Prop) (N : String → Prop) (lo hi : Nat) (d : FunctionDecl) :
    Prop :=
  Lox.Fit P N lo hi (.declaration d.name :: d.sights)

namespace Fit

variable {lo mid hi : Nat} {l : List Sight} {v : Sight}

/-- Something without a number goes before what is fit. -/
theorem cons (hl : Fit P N lo hi l) (hv : v.id? = none) (hp : v.Named N)
    (hs : ∀ s ∈ v.spans, P s.first) : Fit P N lo hi (v :: l) :=
  (other hv hp hs (Nat.le_refl lo)).append hl

/-- Something without a number goes after what is fit. -/
theorem snoc (hl : Fit P N lo hi l) (hv : v.id? = none) (hp : v.Named N)
    (hs : ∀ s ∈ v.spans, P s.first) : Fit P N lo hi (l ++ [v]) :=
  hl.append (other hv hp hs (Nat.le_refl hi))

theorem cons_declaration (hl : Fit P N lo hi l) {x : Ident} (hp : N x.name) (hs : P x.span.first) :
    Fit P N lo hi (.declaration x :: l) :=
  hl.cons rfl hp (by simp [Sight.spans, hs])

theorem cons_branch (hl : Fit P N lo hi l) {s : Stmt} (hs : s.declares? = none) :
    Fit P N lo hi (.branch s :: l) :=
  hl.cons rfl hs (by simp [Sight.spans])

end Fit

/-- What may be left out. -/
def Stmt.sights? (s : Option Stmt) : List Sight := s.elim [] Stmt.sights

def Expr.sights? (e : Option Expr) : List Sight := e.elim [] Expr.sights

/-- The condition of a loop stands before the body, wherever it was read. -/
theorem Stmt.Fit.whileLoop {lo hi : Nat} {span : Span} {condition : Expr} {body : Stmt}
    (h : Lox.Fit P N lo hi (body.sights ++ condition.sights)) (hb : body.declares? = none) :
    (Stmt.whileLoop span condition body).Fit P N lo hi := by
  refine (h.cons_branch hb).perm ?_
  rw [← List.cons_append]
  exact List.perm_append_comm

theorem Stmt.FitBranch.forLoop {lo mid hi : Nat} {span : Span} {initial : Option Stmt}
    {condition : Expr} {increment : Option Expr} {body : Stmt}
    (hs : Lox.Fit P N lo mid (Stmt.sights? initial))
    (hl : Lox.Fit P N mid hi (Expr.sights? increment ++ body.sights ++ condition.sights))
    (hb : body.declares? = none) :
    (Stmt.forLoop span initial condition increment body).FitBranch P N lo hi := by
  have hloop : ∀ inner : Stmt, inner.declares? = none →
      inner.sights.Perm (Expr.sights? increment ++ body.sights) →
      (Stmt.whileLoop span condition inner).Fit P N mid hi := fun inner hd hp =>
    Stmt.Fit.whileLoop (hl.perm (hp.symm.append_right _)) hd
  have hblock : ∀ s inner : Stmt, initial = some s →
      (Stmt.whileLoop span condition inner).Fit P N mid hi →
      (Stmt.block span [s, .whileLoop span condition inner]).FitBranch P N lo hi := by
    rintro s inner rfl hw
    refine ⟨?_, rfl⟩
    rw [Stmt.Fit, Stmt.sights, Stmt.sightsAll, Stmt.sightsAll, Stmt.sightsAll, List.append_nil]
    exact hs.append hw
  have hnone : body.sights.Perm (Expr.sights? none ++ body.sights) := List.Perm.refl _
  have hsome : ∀ e : Expr, (Stmt.block span [body, .expr e.span e]).sights.Perm
      (Expr.sights? (some e) ++ body.sights) := by
    intro e
    rw [Stmt.sights, Stmt.sightsAll, Stmt.sightsAll, Stmt.sightsAll, List.append_nil]
    exact List.perm_append_comm
  cases increment with
  | none =>
    cases initial with
    | none => exact ⟨(Fit.nil hs.le).append (hloop body hb hnone), rfl⟩
    | some s => exact hblock s body rfl (hloop body hb hnone)
  | some e =>
    cases initial with
    | none => exact ⟨(Fit.nil hs.le).append (hloop _ rfl (hsome e)), rfl⟩
    | some s => exact hblock s _ rfl (hloop _ rfl (hsome e))

namespace Reader

theorem runs_attempt {α : Type} {r : Reader α} {Q : α → Cursor → Prop} (h : r.Runs P N c Q) :
    (attempt r).Runs P N c fun o d => c.nextId ≤ d.nextId ∧ ∀ a, o = some a → Q a d := by
  refine ⟨h.1, h.2.1, fun o ho => ?_⟩
  cases ho
  exact ⟨h.2.1, h.2.2⟩

theorem runs_expressionUnless (hc : c.Ok P N) (s : Symbol) :
    (expressionUnless s).Runs P N c fun e d => Fit P N c.nextId d.nextId (Expr.sights? e) := by
  apply (runs_ask hc _).bind
  intro b d hd _ hb
  obtain ⟨-, rfl⟩ := hb
  split
  · exact runs_pure hd (Fit.nil (Nat.le_refl _))
  · exact (runs_expression hd).bind fun e f hf _ he => runs_pure hf he

/-! ### Declarations of variables and simple statements -/

private theorem runs_parameters (fuel : Nat) (hc : c.Ok P N) (count : Nat) :
    (parameters fuel count).Runs P N c fun xs d =>
      Fit P N c.nextId d.nextId (xs.map .declaration) := by
  induction fuel generalizing c count with
  | zero => exact runs_fail hc
  | succ fuel ih =>
    have hrest : ∀ d : Cursor, d.Ok P N → d.nextId = c.nextId →
        (do
          let x ← name "parameter name"
          if ← eat .comma then
            let xs ← parameters fuel (count + 1)
            pure (x :: xs)
          else
            pure [x] : Reader (List Ident)).Runs P N d
          fun xs d => Fit P N c.nextId d.nextId (xs.map .declaration) := by
      intro d hd hn
      rw [← hn]
      apply (runs_name hd _).bind
      intro x f hf _ hx
      apply (runs_eat hf .comma).bind
      intro b g hg _ hb
      rw [← hx.2.2, ← hb.1]
      split
      · refine (ih hg (count + 1)).bind fun xs i hi _ hxs => runs_pure hi ?_
        exact hxs.cons_declaration hx.1 hx.2.1
      · exact runs_pure hg ((Fit.nil (Nat.le_refl _)).cons_declaration hx.1 hx.2.1)
    rw [parameters]
    split
    · exact (runs_report hc _).bind fun _ d hd _ hn => hrest d hd hn
    · exact hrest c hc rfl

private theorem runs_parameterList (hc : c.Ok P N) (sort : String) :
    (parameterList sort).Runs P N c fun xs d =>
      Fit P N c.nextId d.nextId (xs.map .declaration) := by
  apply (runs_expect hc _ _).bind
  intro _ d hd _ hp
  rw [← hp.2]
  have hrest : ∀ (xs : List Ident) f, f.Ok P N → d.nextId ≤ f.nextId →
      Fit P N d.nextId f.nextId (xs.map .declaration) →
      (do
        let _ ← expect .rightParen "after parameters"
        pure xs : Reader (List Ident)).Runs P N f
          fun xs f => Fit P N d.nextId f.nextId (xs.map .declaration) := by
    intro xs f hf _ hxs
    refine (runs_expect hf _ _).bind fun _ g hg _ hp => runs_pure hg ?_
    rwa [hp.2]
  apply (runs_ask hd _).bind
  intro b f hf _ hb
  obtain ⟨-, rfl⟩ := hb
  split
  · exact (runs_pure hf (Fit.nil (Nat.le_refl _))).bind hrest
  · have hps := Runs.fuelled (r := fun n => parameters n 0) (f := fun c => c.rest.length + 1)
      (runs_parameters (f.rest.length + 1) hf 0)
    exact hps.bind hrest

theorem runs_varDecl (hc : c.Ok P N) :
    varDecl.Runs P N c fun s d => s.Fit P N c.nextId d.nextId := by
  apply (runs_advance hc).bind
  intro start d hd _ ht
  apply (runs_name hd _).bind
  intro x e he _ hx
  rw [← ht.2, ← hx.2.2]
  have hrest : ∀ (initial : Option Expr) f, f.Ok P N → e.nextId ≤ f.nextId →
      Fit P N e.nextId f.nextId (Expr.sights? initial) →
      (do
        let finish ← expect .semicolon "after variable declaration"
        pure (.var (start.merge finish) x initial) : Reader Stmt).Runs P N f
          fun s f => s.Fit P N e.nextId f.nextId := by
    intro initial f hf _ hi
    refine (runs_expect hf _ _).bind fun _ g hg _ hp => runs_pure hg ?_
    rw [hp.2]
    cases initial with
    | none => exact hi.cons_declaration hx.1 hx.2.1
    | some v => exact hi.cons_declaration hx.1 hx.2.1
  apply (runs_eat he .eq).bind
  intro b f hf _ hb
  rw [← hb.1] at hrest ⊢
  split
  · refine Runs.bind ((runs_expression hf).map (f := some) ?_) hrest
    exact fun v g hv => hv
  · exact (runs_pure hf (Fit.nil (Nat.le_refl _))).bind hrest

private theorem runs_printStmt (hc : c.Ok P N) :
    printStmt.Runs P N c fun s d => s.FitBranch P N c.nextId d.nextId := by
  apply (runs_advance hc).bind
  intro start d hd _ ht
  apply (runs_expression hd).bind
  intro e f hf _ he
  refine (runs_expect hf _ _).bind fun finish g hg _ hp => runs_pure hg ?_
  rw [← ht.2, hp.2]
  exact ⟨Fit.snoc he rfl trivial (by simp [Sight.spans, Span.first_merge ht.1 hp.1]), rfl⟩

private theorem runs_returnStmt (hc : c.Ok P N) :
    returnStmt.Runs P N c fun s d => s.FitBranch P N c.nextId d.nextId := by
  apply (runs_advance hc).bind
  intro start d hd _ ht
  apply (runs_expressionUnless hd _).bind
  intro e f hf _ he
  refine (runs_expect hf _ _).bind fun finish g hg _ hp => runs_pure hg ?_
  rw [← ht.2, hp.2]
  have hs : ∀ b, ∀ s ∈ (Sight.returning start b).spans, P s.first := by simp [Sight.spans, ht.1]
  cases e with
  | none => exact ⟨he.cons rfl trivial (hs false), rfl⟩
  | some e => exact ⟨he.cons rfl trivial (hs true), rfl⟩

private theorem runs_expressionStmt (hc : c.Ok P N) :
    expressionStmt.Runs P N c fun s d => s.FitBranch P N c.nextId d.nextId := by
  apply (runs_expression hc).bind
  intro e f hf _ he
  refine (runs_expect hf _ _).bind fun finish g hg _ hp => runs_pure hg ?_
  rw [hp.2]
  exact ⟨he, rfl⟩

private theorem runs_forInitial (hc : c.Ok P N) :
    forInitial.Runs P N c fun s d => Fit P N c.nextId d.nextId (Stmt.sights? s) := by
  apply (runs_eat hc _).bind
  intro b d hd _ hb
  rw [← hb.1]
  split
  · exact runs_pure hd (Fit.nil (Nat.le_refl _))
  · apply (runs_ask hd _).bind
    intro b' e he _ hb'
    obtain ⟨-, rfl⟩ := hb'
    split
    · exact (runs_varDecl he).map fun s f hs => hs
    · apply (runs_expression he).bind
      intro v f hf _ hv
      refine (runs_expect hf _ _).bind fun _ g hg _ hp => runs_pure hg ?_
      rwa [hp.2]

private theorem runs_superclass (hc : c.Ok P N) (x : Ident) :
    superclass.Runs P N c fun p d => Fit P N c.nextId d.nextId (p.elim [] fun p => p.sights x) := by
  apply (runs_eat hc _).bind
  intro b d hd _ hb
  rw [← hb.1]
  split
  · apply (runs_name hd _).bind
    intro y e he _ hy
    refine (runs_site he _).bind fun s f hf _ hs => runs_pure hf ?_
    obtain ⟨rfl, hn⟩ := hs
    rw [hn, ← hy.2.2]
    have hnode : (Expr.var ⟨e.nextId, y.span⟩ y).Fit P N e.nextId (e.nextId + 1) :=
      Fit.leaf rfl rfl hy.1 (by simp [Sight.spans, hy.2.1])
    exact Fit.cons hnode rfl trivial (by simp [Sight.spans, hy.2.1])
  · exact runs_pure hd (Fit.nil (Nat.le_refl _))

/-! ### Statements that hold statements -/

/-- What the readers of statements make sure of when they nest no deeper than `fuel`. -/
structure StatementRuns (P : Position → Prop) (N : String → Prop) (fuel : Nat) : Prop where
  declaration : ∀ c : Cursor, c.Ok P N →
    (declaration fuel).Runs P N c fun s d => s.Fit P N c.nextId d.nextId
  declarations : ∀ c : Cursor, c.Ok P N →
    (declarations fuel).Runs P N c fun ss d => Fit P N c.nextId d.nextId (Stmt.sightsAll ss)
  block : ∀ c : Cursor, c.Ok P N →
    (block fuel).Runs P N c fun b d => Fit P N c.nextId d.nextId (Stmt.sightsAll b.1)
  function : ∀ (c : Cursor) sort, c.Ok P N →
    (function fuel sort).Runs P N c fun f d => f.Fit P N c.nextId d.nextId
  methods : ∀ c : Cursor, c.Ok P N →
    (methods fuel).Runs P N c fun ms d => Fit P N c.nextId d.nextId (FunctionDecl.sightsAll ms)
  classDecl : ∀ c : Cursor, c.Ok P N →
    (classDecl fuel).Runs P N c fun s d => s.Fit P N c.nextId d.nextId
  statement : ∀ c : Cursor, c.Ok P N →
    (statement fuel).Runs P N c fun s d => s.FitBranch P N c.nextId d.nextId
  ifStmt : ∀ c : Cursor, c.Ok P N →
    (ifStmt fuel).Runs P N c fun s d => s.FitBranch P N c.nextId d.nextId
  whileStmt : ∀ c : Cursor, c.Ok P N →
    (whileStmt fuel).Runs P N c fun s d => s.FitBranch P N c.nextId d.nextId
  forStmt : ∀ c : Cursor, c.Ok P N →
    (forStmt fuel).Runs P N c fun s d => s.FitBranch P N c.nextId d.nextId

namespace StatementRuns

variable {fuel : Nat}

/-- What reads a declaration that starts with a token of the kind. -/
def declarationOf (fuel : Nat) : TokenKind → Reader Stmt
  | .keyword .cls => Reader.classDecl fuel
  | .keyword .fun => do
    let _ ← advance
    let d ← Reader.function fuel "function"
    pure (.function d)
  | .keyword .var => varDecl
  | _ => Reader.statement fuel

private theorem runs_declarationOf (ih : StatementRuns P N fuel) (hc : c.Ok P N) (k : TokenKind) :
    (declarationOf fuel k).Runs P N c fun s d => s.Fit P N c.nextId d.nextId := by
  unfold declarationOf
  split
  · exact ih.classDecl c hc
  · apply (runs_advance hc).bind
    intro _ d hd _ ht
    refine (ih.function d _ hd).bind fun f e he _ hf => runs_pure he ?_
    rwa [← ht.2]
  · exact runs_varDecl hc
  · exact (ih.statement c hc).imp fun s d hs => hs.fit

/-- What comes out of reading a declaration: after a failure the cursor only moves on. -/
def recovered : Option Stmt × Cursor → Option Stmt × Cursor
  | (some s, d) => (some s, d)
  | (none, d) => (none, d.recover)

theorem declaration_eq (fuel : Nat) (c : Cursor) :
    Reader.declaration (fuel + 1) c = recovered (declarationOf fuel c.kind c) := by
  rw [Reader.declaration]
  rfl

theorem declaration_succ (ih : StatementRuns P N fuel) (hc : c.Ok P N) :
    (Reader.declaration (fuel + 1)).Runs P N c fun s d => s.Fit P N c.nextId d.nextId := by
  have h := ih.runs_declarationOf hc c.kind
  unfold Runs at *
  rw [declaration_eq]
  generalize declarationOf fuel c.kind c = o at h ⊢
  obtain ⟨_ | s, d⟩ := o
  · exact ⟨h.1.recover, Nat.le_trans h.2.1 (Nat.le_of_eq d.nextId_recover.symm), nofun⟩
  · exact h

theorem declarations_succ (ih : StatementRuns P N fuel) (hc : c.Ok P N) :
    (Reader.declarations (fuel + 1)).Runs P N c
      fun ss d => Fit P N c.nextId d.nextId (Stmt.sightsAll ss) := by
  rw [Reader.declarations]
  apply (runs_ask hc _).bind
  intro b d hd _ hb
  obtain ⟨-, rfl⟩ := hb
  split
  · exact runs_pure hd (Fit.nil (Nat.le_refl _))
  · apply (runs_attempt (ih.declaration d hd)).bind
    intro o e he _ ho
    refine (ih.declarations e he).bind fun ss f hf _ hss => runs_pure hf ?_
    cases o with
    | none => exact (Fit.nil ho.1).append hss
    | some s => exact Fit.append (ho.2 s rfl) hss

theorem block_succ (ih : StatementRuns P N fuel) (hc : c.Ok P N) :
    (Reader.block (fuel + 1)).Runs P N c fun b d =>
      Fit P N c.nextId d.nextId (Stmt.sightsAll b.1) := by
  rw [Reader.block]
  apply (runs_expect hc _ _).bind
  intro start d hd _ hs
  apply (ih.declarations d hd).bind
  intro body e he _ hb
  refine (runs_expect he _ _).bind fun finish f hf _ hp => runs_pure hf ?_
  rwa [← hs.2, hp.2]

theorem function_succ (ih : StatementRuns P N fuel) (hc : c.Ok P N) (sort : String) :
    (Reader.function (fuel + 1) sort).Runs P N c fun f d => f.Fit P N c.nextId d.nextId := by
  rw [Reader.function]
  apply (runs_name hc _).bind
  intro x d hd _ hx
  apply (runs_parameterList hd _).bind
  intro ps e he _ hps
  apply (runs_ask he _).bind
  intro b f hf _ hb
  obtain ⟨-, rfl⟩ := hb
  rw [← hx.2.2]
  split
  · refine (ih.block f hf).bind fun body g hg _ hb => runs_pure hg ?_
    exact (hps.append hb).cons_declaration hx.1 hx.2.1
  · exact (runs_report hf _).bind fun _ g hg _ _ => runs_fail hg

theorem methods_succ (ih : StatementRuns P N fuel) (hc : c.Ok P N) :
    (Reader.methods (fuel + 1)).Runs P N c
      fun ms d => Fit P N c.nextId d.nextId (FunctionDecl.sightsAll ms) := by
  rw [Reader.methods]
  apply (runs_ask hc _).bind
  intro b d hd _ hb
  obtain ⟨-, rfl⟩ := hb
  split
  · exact runs_pure hd (Fit.nil (Nat.le_refl _))
  · apply (ih.function d _ hd).bind
    intro m e he _ hm
    refine (ih.methods e he).bind fun ms f hf _ hms => runs_pure hf ?_
    exact (Fit.sublist hm (List.sublist_cons_self _ _)).append hms

theorem classDecl_succ (ih : StatementRuns P N fuel) (hc : c.Ok P N) :
    (Reader.classDecl (fuel + 1)).Runs P N c fun s d => s.Fit P N c.nextId d.nextId := by
  rw [Reader.classDecl]
  apply (runs_advance hc).bind
  intro start d hd _ ht
  apply (runs_name hd _).bind
  intro x e he _ hx
  apply (runs_superclass he x).bind
  intro parent f hf _ hp
  apply (runs_expect hf _ _).bind
  intro _ g hg _ hl
  apply (ih.methods g hg).bind
  intro ms i hi _ hms
  refine (runs_expect hi _ _).bind fun finish j hj _ hr => runs_pure hj ?_
  rw [← ht.2, ← hx.2.2, hr.2]
  rw [← hl.2] at hp
  cases parent with
  | none => exact (hp.append hms).cons_declaration hx.1 hx.2.1
  | some p => exact (hp.append hms).cons_declaration hx.1 hx.2.1

theorem statement_succ (ih : StatementRuns P N fuel) (hc : c.Ok P N) :
    (Reader.statement (fuel + 1)).Runs P N c fun s d => s.FitBranch P N c.nextId d.nextId := by
  rw [Reader.statement]
  apply (runs_ask hc _).bind
  intro k d hd _ hk
  obtain ⟨-, rfl⟩ := hk
  split
  · exact runs_printStmt hd
  · exact ih.ifStmt d hd
  · exact ih.whileStmt d hd
  · exact ih.forStmt d hd
  · exact runs_returnStmt hd
  · exact (ih.block d hd).bind fun b e he _ hb => runs_pure he ⟨hb, rfl⟩
  · exact runs_expressionStmt hd

theorem ifStmt_succ (ih : StatementRuns P N fuel) (hc : c.Ok P N) :
    (Reader.ifStmt (fuel + 1)).Runs P N c fun s d => s.FitBranch P N c.nextId d.nextId := by
  rw [Reader.ifStmt]
  apply (runs_advance hc).bind
  intro start d hd _ ht
  apply (runs_expect hd _ _).bind
  intro _ e he _ hl
  apply (runs_expression he).bind
  intro condition f hf _ hcond
  apply (runs_expect hf _ _).bind
  intro _ g hg _ hr
  apply (ih.statement g hg).bind
  intro yes i hi _ hyes
  rw [← hr.2] at hcond
  have hthen := Fit.append hcond (hyes.fit.cons_branch hyes.branch)
  have hrest : ∀ (no : Option Stmt) j, j.Ok P N → i.nextId ≤ j.nextId →
      (Fit P N i.nextId j.nextId (Stmt.sights? no) ∧ ∀ s, no = some s → s.declares? = none) →
      (do
        let finish ← previous
        pure (.ifElse (start.merge finish) condition yes no) : Reader Stmt).Runs P N j
          fun s k => s.FitBranch P N c.nextId k.nextId := by
    rintro no j hj _ ⟨hno, hbranch⟩
    refine (runs_ask hj _).bind fun _ k hk _ hp => runs_pure hk ⟨?_, rfl⟩
    obtain ⟨-, rfl⟩ := hp
    rw [← ht.2, ← hl.2]
    cases no with
    | none => simpa [Stmt.Fit, Stmt.sights, Stmt.sights?] using hthen.append hno
    | some s => exact hthen.append (hno.cons_branch (hbranch s rfl))
  apply (runs_eatKeyword hi _).bind
  intro b j hj _ hb
  rw [← hb] at hrest
  split
  · refine Runs.bind ((ih.statement j hj).map (f := some) ?_) hrest
    intro s k hs
    exact ⟨hs.fit, fun t ht => Option.some.inj ht ▸ hs.branch⟩
  · exact (runs_pure hj ⟨Fit.nil (Nat.le_refl _), fun s hs => by cases hs⟩).bind hrest

theorem whileStmt_succ (ih : StatementRuns P N fuel) (hc : c.Ok P N) :
    (Reader.whileStmt (fuel + 1)).Runs P N c fun s d => s.FitBranch P N c.nextId d.nextId := by
  rw [Reader.whileStmt]
  apply (runs_advance hc).bind
  intro start d hd _ ht
  apply (runs_expect hd _ _).bind
  intro _ e he _ hl
  apply (runs_expression he).bind
  intro condition f hf _ hcond
  apply (runs_expect hf _ _).bind
  intro _ g hg _ hr
  apply (ih.statement g hg).bind
  intro body i hi _ hb
  refine (runs_ask hi _).bind fun _ j hj _ hp => runs_pure hj ⟨?_, rfl⟩
  obtain ⟨-, rfl⟩ := hp
  rw [← hr.2] at hcond
  rw [← ht.2, ← hl.2]
  exact Fit.append hcond (hb.fit.cons_branch hb.branch)

theorem forStmt_succ (ih : StatementRuns P N fuel) (hc : c.Ok P N) :
    (Reader.forStmt (fuel + 1)).Runs P N c fun s d => s.FitBranch P N c.nextId d.nextId := by
  rw [Reader.forStmt]
  apply (runs_advance hc).bind
  intro start d hd _ ht
  apply (runs_expect hd _ _).bind
  intro _ e he _ hl
  apply (runs_forInitial he).bind
  intro initial f hf _ hinitial
  apply (runs_expressionUnless hf _).bind
  intro condition g hg _ hcond
  apply (runs_expect hg _ _).bind
  intro conditionEnd i hi _ hs
  apply (runs_expressionUnless hi _).bind
  intro increment j hj _ hinc
  apply (runs_expect hj _ _).bind
  intro _ k hk _ hr
  apply (ih.statement k hk).bind
  intro body m hm _ hb
  apply (runs_ask hm _).bind
  intro finish n hn _ hp
  obtain ⟨-, rfl⟩ := hp
  rw [← ht.2, ← hl.2]
  rw [← hs.2] at hcond
  rw [← hr.2] at hinc
  have hbody := hinc.append hb.fit
  cases condition with
  | some v =>
    apply (runs_pure (Q := fun v' d => v' = v ∧ d = n) hn ⟨rfl, rfl⟩).bind
    intro v' d hd _ hv
    obtain ⟨rfl, rfl⟩ := hv
    refine runs_pure hd (Stmt.FitBranch.forLoop hinitial ?_ hb.branch)
    exact (Fit.append hcond hbody).perm List.perm_append_comm
  | none =>
    apply (runs_site hn _).bind
    intro s d hd _ h
    obtain ⟨rfl, hid⟩ := h
    have hv : (Expr.literal ⟨n.nextId, conditionEnd⟩ (.bool true)).Fit P N n.nextId d.nextId := by
      rw [hid]
      exact Fit.leaf rfl rfl trivial (by simp [Sight.spans])
    refine (runs_pure (Q := fun v i => v =
      Expr.literal ⟨n.nextId, conditionEnd⟩ (.bool true) ∧ i = d) hd
      ⟨rfl, rfl⟩).bind fun v i hi _ h => ?_
    obtain ⟨rfl, rfl⟩ := h
    refine runs_pure hi (Stmt.FitBranch.forLoop hinitial ?_ hb.branch)
    exact ((Fit.nil hcond.le).append hbody).append hv

end StatementRuns

theorem statementRuns (P : Position → Prop) (N : String → Prop) (fuel : Nat) :
    StatementRuns P N fuel := by
  induction fuel with
  | zero =>
    constructor
    · exact fun _ hc => runs_fail hc
    · exact fun _ hc => runs_fail hc
    · exact fun _ hc => runs_fail hc
    · exact fun _ _ hc => runs_fail hc
    · exact fun _ hc => runs_fail hc
    · exact fun _ hc => runs_fail hc
    · exact fun _ hc => runs_fail hc
    · exact fun _ hc => runs_fail hc
    · exact fun _ hc => runs_fail hc
    · exact fun _ hc => runs_fail hc
  | succ fuel ih =>
    exact {
      declaration := fun _ hc => ih.declaration_succ hc
      declarations := fun _ hc => ih.declarations_succ hc
      block := fun _ hc => ih.block_succ hc
      function := fun _ sort hc => ih.function_succ hc sort
      methods := fun _ hc => ih.methods_succ hc
      classDecl := fun _ hc => ih.classDecl_succ hc
      statement := fun _ hc => ih.statement_succ hc
      ifStmt := fun _ hc => ih.ifStmt_succ hc
      whileStmt := fun _ hc => ih.whileStmt_succ hc
      forStmt := fun _ hc => ih.forStmt_succ hc }

private theorem runs_topLevel (fuel : Nat) (hc : c.Ok P N) :
    (topLevel fuel).Runs P N c fun ss d => Fit P N c.nextId d.nextId (Stmt.sightsAll ss) := by
  induction fuel generalizing c with
  | zero => exact runs_fail hc
  | succ fuel ih =>
    rw [topLevel]
    apply (runs_ask hc _).bind
    intro b d hd _ hb
    obtain ⟨-, rfl⟩ := hb
    split
    · exact runs_pure hd (Fit.nil (Nat.le_refl _))
    · have hdecl := Runs.fuelled (r := Reader.declaration) (f := fun c => 4 * (c.rest.length + 1))
        ((statementRuns P N (4 * (d.rest.length + 1))).declaration d hd)
      apply (runs_attempt hdecl).bind
      intro o e he _ ho
      refine (ih he).bind fun ss f hf _ hss => runs_pure hf ?_
      cases o with
      | none => exact (Fit.nil ho.1).append hss
      | some s => exact Fit.append (ho.2 s rfl) hss

end Reader

namespace Parsed

/-- A program that is read from good tokens is fit, and so are the errors met on the way. -/
theorem fit_ofTokens {tokens : List Token} {firstId : Nat}
    (hc : (Cursor.ofTokens tokens firstId).Ok P N) :
    Fit P N firstId (ofTokens tokens firstId).nextId
      (Stmt.sightsAll (ofTokens tokens firstId).program.body) ∧
      ∀ e ∈ (ofTokens tokens firstId).errors, P e.span.first := by
  have h := Reader.runs_topLevel ((Cursor.ofTokens tokens firstId).rest.length + 1) hc
  unfold Reader.Runs at h
  simp only [ofTokens]
  generalize Reader.topLevel ((Cursor.ofTokens tokens firstId).rest.length + 1)
    (Cursor.ofTokens tokens firstId) = r at h ⊢
  obtain ⟨_ | body, d⟩ := r
  · exact ⟨Fit.nil h.2.1, fun e he => h.1.errors e (Array.mem_toList_iff.mp he)⟩
  · exact ⟨h.2.2 body rfl, fun e he => h.1.errors e (Array.mem_toList_iff.mp he)⟩

end Parsed

end Lox
