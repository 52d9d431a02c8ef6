import Lox.Proofs.Dump.Tokens
import Lox.Proofs.Reading.Nesting
/-!
# Trees are drawn from their tokens

Names and literals of a tree are tokens that were read, and all else in its form are words of
the forms themselves. So what is true of all tokens of a text is true of the words in the
form of the program.
-/

namespace Lox

/-! ### Forms drawn from tokens -/

/-- All words are words of forms or tokens of a text. -/
def Form.Drawn (f : Form) : Prop := ∀ k ∈ f.words, k.Drawn

namespace Form

variable {k : TokenKind} {ms : List Form}

@[simp] theorem drawn_word : (word k).Drawn ↔ k.Drawn := by simp [Drawn, words]

@[simp] theorem drawn_list : (list ms).Drawn ↔ ∀ m ∈ ms, m.Drawn := by
  simp only [Drawn, words, mem_wordsAll]
  constructor
  · intro h m hm k hk
    exact h k ⟨m, hm, hk⟩
  · rintro h k ⟨m, hm, hk⟩
    exact h m hm k hk

@[simp] theorem drawn_node : (node k ms).Drawn ↔ k.Drawn ∧ ∀ m ∈ ms, m.Drawn := by simp [node]

end Form

namespace TokenKind

@[simp] theorem drawn_keyword (w : Keyword) : (keyword w).Drawn := Word.keyword w

theorem drawn_symbol {s : Symbol} (ho : s ≠ .leftParen) (hc : s ≠ .rightParen) : (symbol s).Drawn :=
  Word.symbol ho hc

/-- The words that lists of a form begin with besides keywords and symbols. -/
def names : List String := ["group", "call", "set", "block", "method"]

theorem drawn_names : ∀ x ∈ names, (identifier x).Drawn := by
  have hname : ∀ x ∈ names, ∃ c cs, x.toList = c :: cs ∧ Piece.isLetter c = true ∧
      (∀ d ∈ cs, Piece.isLetterOrDigit d = true) ∧ ∀ w : Keyword, w.text ≠ x := by
    simp only [names, List.forall_mem_cons, List.not_mem_nil, false_implies, implies_true, and_true]
    refine ⟨?_, ?_, ?_, ?_, ?_⟩ <;>
      exact ⟨_, _, rfl, rfl, List.all_eq_true.mp rfl, fun w => by cases w <;> decide⟩
  intro x hx
  obtain ⟨c, cs, hcs, hc, hrest, hw⟩ := hname x hx
  exact ⟨⟨⟨c, cs, hcs, hc, hrest⟩, hw⟩, by simp, by simp⟩

end TokenKind

theorem UnaryOp.drawn_token (op : UnaryOp) : op.token.Drawn := by
  cases op <;> exact TokenKind.drawn_symbol nofun nofun

theorem InfixOp.drawn_token (op : InfixOp) : op.token.Drawn := by
  rcases op with (_ | _) | (_ | _ | _ | _ | _ | _ | _ | _ | _ | _) <;>
    first | exact TokenKind.drawn_keyword _ | exact TokenKind.drawn_symbol nofun nofun

private theorem Literal.token_of_ofToken? {k : TokenKind} {v : Literal}
    (h : Literal.ofToken? k = some v) : v.token = k := by
  unfold Literal.ofToken? at h
  split at h <;> cases h <;> rfl

/-- The function, whatever word says what sort of function it is. -/
def FunctionDecl.Drawn (d : FunctionDecl) : Prop :=
  ∀ first : TokenKind, first.Drawn → (d.form first).Drawn

theorem Expr.drawn_forms {es : List Expr} :
    (∀ m ∈ Expr.forms es, m.Drawn) ↔ ∀ e ∈ es, e.form.Drawn := by
  induction es with
  | nil => simp [Expr.forms]
  | cons e es ih => simp [Expr.forms, ih]

theorem Stmt.drawn_forms {ss : List Stmt} :
    (∀ m ∈ Stmt.forms ss, m.Drawn) ↔ ∀ s ∈ ss, s.form.Drawn := by
  induction ss with
  | nil => simp [Stmt.forms]
  | cons s ss ih => simp [Stmt.forms, ih]

theorem FunctionDecl.drawn_forms {ds : List FunctionDecl} (h : ∀ d ∈ ds, d.Drawn) :
    ∀ m ∈ FunctionDecl.forms ds, m.Drawn := by
  induction ds with
  | nil => nofun
  | cons d ds ih =>
    obtain ⟨hd, hds⟩ := List.forall_mem_cons.mp h
    exact List.forall_mem_cons.mpr ⟨hd _ (TokenKind.drawn_names _ (by decide)), ih hds⟩

private theorem FunctionDecl.drawn_mk {x : Ident} {ps : List Ident} {b : List Stmt} {t : Span}
    (hx : x.token.Drawn) (hps : ∀ p ∈ ps, p.token.Drawn) (hb : ∀ s ∈ b, s.form.Drawn) :
    (FunctionDecl.mk x ps b t).Drawn := by
  intro first hfirst
  simpa [FunctionDecl.form, Stmt.drawn_forms] using ⟨hfirst, hx, hps, hb⟩

/-- What a `for` loop stands for is made of its clauses and its body. -/
theorem Stmt.drawn_forLoop {t : Span} {i : Option Stmt} {c : Expr} {e : Option Expr} {b : Stmt}
    (hi : ∀ s ∈ i, s.form.Drawn) (hc : c.form.Drawn) (he : ∀ e' ∈ e, e'.form.Drawn)
    (hb : b.form.Drawn) : (Stmt.forLoop t i c e b).form.Drawn := by
  have hblock : (TokenKind.identifier "block").Drawn := TokenKind.drawn_names _ (by decide)
  have hsemicolon : (TokenKind.symbol .semicolon).Drawn := TokenKind.drawn_symbol nofun nofun
  cases i <;> cases e <;>
    simp_all [Stmt.forLoop, Stmt.form, Stmt.drawn_forms]

/-! ### Readers -/

/-- The tokens that are still to be read are tokens of a text. -/
def Cursor.Lexical (c : Cursor) : Prop := ∀ t ∈ c.rest, t.kind.Lexical

namespace Cursor.Lexical

variable {c d : Cursor}

theorem ahead (h : c.Lexical) (hd : c.Ahead d) : d.Lexical := by
  obtain ⟨ts, hts, -⟩ := hd.rest
  exact fun t ht => h t (hts ▸ List.mem_append_right _ ht)

theorem kind (h : c.Lexical) : c.kind.Lexical := by
  unfold Cursor.kind
  split
  · exact trivial
  · rename_i hr
    exact h _ (hr ▸ List.mem_cons_self)

end Cursor.Lexical

namespace Reader

variable {α β : Type} {r : Reader α} {f : α → Reader β} {P Q : α → Prop} {R : β → Prop}

/-- What `r` reads from tokens of a text is as `Q` says. -/
def Makes (r : Reader α) (Q : α → Prop) : Prop :=
  ∀ c : Cursor, c.Lexical → ∀ a, (r c).1 = some a → Q a

theorem Makes.bind [r.Onward] (h : r.Makes Q) (hf : ∀ a, Q a → (f a).Makes R) :
    (r >>= f).Makes R := by
  intro c hc b hb
  cases ha : (r c).1 with
  | none =>
    rw [bind_of_none ha] at hb
    cases hb
  | some a =>
    rw [bind_of_some ha] at hb
    exact hf a (h c hc a ha) _ (hc.ahead (Onward.ahead (r := r) c)) b hb

theorem makes_any (r : Reader α) : r.Makes fun _ => True := fun _ _ _ _ => trivial

theorem makes_pure {a : α} (h : Q a) : (pure a : Reader α).Makes Q := by
  rintro _ _ _ ⟨⟩
  exact h

theorem makes_fail : (fail : Reader α).Makes Q := nofun

theorem Makes.map [r.Onward] {g : α → β} (h : r.Makes Q) (hg : ∀ a, Q a → R (g a)) :
    (g <$> r).Makes R :=
  h.bind fun a ha => makes_pure (hg a ha)

theorem makes_any_bind [r.Onward] (hf : ∀ a, (f a).Makes R) : (r >>= f).Makes R :=
  (makes_any r).bind fun a _ => hf a

private theorem makes_kind : (ask Cursor.kind).Makes TokenKind.Lexical := by
  rintro c hc _ ⟨⟩
  exact hc.kind

theorem Makes.attempt (h : r.Makes Q) : (attempt r).Makes fun o => ∀ a ∈ o, Q a := by
  rintro c hc _ ⟨⟩
  exact h c hc

theorem Makes.fuelled {r : Nat → Reader α} (h : ∀ n, (r n).Makes Q) (g : Cursor → Nat) :
    Makes (fun c => r (g c) c) Q := fun c hc => h (g c) c hc

theorem makes_name (role : String) : (name role).Makes fun x => x.token.Drawn := by
  intro c hc
  unfold name
  split
  · rename_i x hx
    rintro _ ⟨⟩
    have hk := hc.kind
    rw [hx] at hk
    exact hk.drawn (by simp) (by simp)
  · rintro _ ⟨⟩

private theorem makes_infixNode (op : InfixOp) {l r : Expr} (t : Span) (hl : l.form.Drawn)
    (hr : r.form.Drawn) : (infixNode l op t r).Makes fun e => e.form.Drawn := by
  refine makes_any_bind fun s => ?_
  cases op <;> exact makes_pure (by simp [Expr.form, InfixOp.drawn_token, hl, hr])

private theorem makes_assignNode {e v : Expr} (t : Span) (he : e.form.Drawn) (hv : v.form.Drawn) :
    (assignNode e t v).Makes fun e => e.form.Drawn := by
  unfold assignNode
  split
  · refine makes_any_bind fun s => makes_pure ?_
    simp only [Expr.form, Form.drawn_word] at he
    simp [Expr.form, TokenKind.drawn_symbol, he, hv]
  · refine makes_any_bind fun s => makes_pure ?_
    simp [Expr.form] at he
    have hset : (TokenKind.identifier "set").Drawn := TokenKind.drawn_names _ (by decide)
    simp [Expr.form, hset, he, hv]
  · exact makes_any_bind fun _ => makes_pure he

private theorem makes_literalOf (start : Span) {k : TokenKind} (hk : k.Lexical) :
    (literalOf start (Literal.ofToken? k)).Makes fun e => e.form.Drawn := by
  unfold literalOf
  split
  · rename_i v hv
    refine makes_any_bind fun _ => makes_any_bind fun s => makes_pure ?_
    rw [Expr.form, Form.drawn_word, Literal.token_of_ofToken? hv]
    refine hk.drawn ?_ ?_
    · rintro rfl
      cases hv
    · rintro s rfl
      cases hv
  · exact makes_any_bind fun _ => makes_fail

end Reader

namespace Reading

open Reader

variable {α : Type}

/-- What is given to a reader is drawn from tokens. The outermost list is read
by no other reader. -/
def Given : {α : Type} → Reading α → Prop
  | _, moreOperands _ e | _, calls e => e.form.Drawn
  | _, topLevel => False
  | _, _ => True

/-- What was read is drawn from tokens. -/
def Drawn : {α : Type} → Reading α → α → Prop
  | _, assignment, e | _, level _, e | _, moreOperands _ _, e | _, operand _, e | _, unary, e
  | _, calls _, e
  | _, primary, e | _, expression, e => e.form.Drawn
  | _, arguments _, es => ∀ e ∈ es, e.form.Drawn
  | _, expressionUnless _, e => ∀ e' ∈ e, e'.form.Drawn
  | _, name _, x => x.token.Drawn
  | _, parameters _, xs | _, parameterList _, xs => ∀ x ∈ xs, x.token.Drawn
  | _, declaration, s | _, classDecl, s | _, statement, s | _, ifStmt, s | _, whileStmt, s
  | _, forStmt, s
  | _, varDecl, s | _, printStmt, s | _, returnStmt, s | _, expressionStmt, s => s.form.Drawn
  | _, forInitial, s => ∀ s' ∈ s, s'.form.Drawn
  | _, declarations, ss | _, topLevel, ss => ∀ s ∈ ss, s.form.Drawn
  | _, block, b => ∀ s ∈ b.1, s.form.Drawn
  | _, function _, d => d.Drawn
  | _, methods, ds => ∀ d ∈ ds, d.Drawn
  | _, superclass, p => ∀ q ∈ p, q.name.token.Drawn
  | _, expect _ _, _ => True

section

variable (go : Calls) (hgo : ∀ {β : Type} (r : Reading β), r.Given → (go r).Makes r.Drawn)

include hgo

/-! ### Expressions -/

theorem makes_operand (l : Level) : (body go (operand l)).Makes (Drawn (operand l)) := by
  simp only [body]
  split
  · exact hgo (level _) trivial
  · exact hgo unary trivial

variable [∀ {β : Type} (r : Reading β), (go r).Onward]

theorem makes_assignment : (body go assignment).Makes (Drawn assignment) := by
  refine (hgo (level .or) trivial).bind fun e he => makes_any_bind fun b => ?_
  split
  · exact makes_any_bind fun t => (hgo assignment trivial).bind fun v hv => makes_assignNode t he hv
  · exact makes_pure he

theorem makes_moreOperands {l : Level} {e : Expr} (he : e.form.Drawn) :
    (body go (moreOperands l e)).Makes (Drawn (moreOperands l e)) := by
  refine makes_any_bind fun k => ?_
  split
  · exact makes_pure he
  · refine makes_any_bind fun t => (hgo (operand l) trivial).bind fun r hr => ?_
    exact (makes_infixNode _ t he hr).bind fun n hn => hgo (moreOperands l n) hn

theorem makes_unary : (body go unary).Makes (Drawn unary) := by
  refine makes_any_bind fun k => ?_
  split
  · exact (hgo primary trivial).bind fun e he => hgo (calls e) he
  · rename_i op _
    refine makes_any_bind fun t => (hgo unary trivial).bind fun e (he : e.form.Drawn) => ?_
    exact makes_any_bind fun s => makes_pure (by simp [Drawn, Expr.form, op.drawn_token, he])

theorem makes_calls {e : Expr} (he : e.form.Drawn) :
    (body go (calls e)).Makes (Drawn (calls e)) := by
  have hcall : ∀ es : List Expr, (∀ e' ∈ es, e'.form.Drawn) → (do
      let paren ← Reader.expect .rightParen "after arguments"
      let s ← site (e.span.merge paren)
      go (calls (.call s e paren es)) : Reader Expr).Makes (Drawn (calls e)) := by
    intro es hes
    refine makes_any_bind fun t => makes_any_bind fun s => hgo (calls (.call s e t es)) ?_
    have hname : (TokenKind.identifier "call").Drawn := TokenKind.drawn_names _ (by decide)
    simpa [Given, Expr.form, Expr.drawn_forms] using ⟨hname, he, hes⟩
  refine makes_any_bind fun b => ?_
  split
  · refine makes_any_bind fun b => ?_
    split
    · exact hcall [] nofun
    · exact (hgo (arguments 0) trivial).bind hcall
  · refine makes_any_bind fun b => ?_
    split
    · refine (makes_name _).bind fun x hx => makes_any_bind fun s => hgo (calls (.get s e x)) ?_
      simp [Given, Expr.form, TokenKind.drawn_symbol, he, hx]
    · exact makes_pure he

theorem makes_arguments (count : Nat) :
    (body go (arguments count)).Makes (Drawn (arguments count)) := by
  have hrest : (do
      let e ← go assignment
      if ← eat .comma then
        let es ← go (arguments (count + 1))
        pure (e :: es)
      else
        pure [e] : Reader (List Expr)).Makes (Drawn (arguments count)) := by
    refine (hgo assignment trivial).bind fun e he => makes_any_bind fun b => ?_
    split
    · refine (hgo (arguments (count + 1)) (by simp only [Given])).bind fun es hes => makes_pure ?_
      exact List.forall_mem_cons.mpr ⟨he, hes⟩
    · exact makes_pure (List.forall_mem_singleton.mpr he)
  change (if maxArity ≤ count then report .tooManyArguments >>=
      fun _ => _ else _ : Reader _).Makes _
  split
  · exact makes_any_bind fun _ => hrest
  · exact hrest

theorem makes_primary : (body go primary).Makes (Drawn primary) := by
  refine makes_any_bind fun start => makes_kind.bind fun k hk => ?_
  split
  · exact makes_any_bind fun _ => makes_any_bind fun s => makes_pure (by simp [Drawn, Expr.form])
  · refine makes_any_bind fun _ => makes_any_bind fun s => makes_pure ?_
    exact Form.drawn_word.mpr (hk.drawn nofun nofun)
  · refine makes_any_bind fun _ => makes_any_bind fun _ => (makes_name _).bind fun x hx => ?_
    exact makes_any_bind fun s => makes_pure (by simp [Drawn, Expr.form, hx])
  · refine makes_any_bind fun _ => (hgo assignment trivial).bind fun e (he : e.form.Drawn) => ?_
    have hname : (TokenKind.identifier "group").Drawn := TokenKind.drawn_names _ (by decide)
    exact makes_any_bind fun _ => makes_any_bind fun s =>
      makes_pure (by simp [Drawn, Expr.form, hname, he])
  · exact makes_literalOf start hk

theorem makes_parameters (count : Nat) :
    (body go (parameters count)).Makes (Drawn (parameters count)) := by
  have hrest : (do
      let x ← Reader.name "parameter name"
      if ← eat .comma then
        let xs ← go (parameters (count + 1))
        pure (x :: xs)
      else
        pure [x] : Reader (List Ident)).Makes (Drawn (parameters count)) := by
    refine (makes_name _).bind fun x hx => makes_any_bind fun b => ?_
    split
    · refine (hgo (parameters (count + 1)) (by simp only [Given])).bind fun xs hxs => makes_pure ?_
      exact List.forall_mem_cons.mpr ⟨hx, hxs⟩
    · exact makes_pure (List.forall_mem_singleton.mpr hx)
  change (if maxArity ≤ count then report .tooManyParameters >>=
      fun _ => _ else _ : Reader _).Makes _
  split
  · exact makes_any_bind fun _ => hrest
  · exact hrest

end

theorem makes_inside (n : Nat) (r : Reading α) (hr : r.Given) : (inside n r).Makes r.Drawn := by
  induction n generalizing α with
  | zero => cases r <;> exact makes_fail
  | succ n ih =>
    have hgo : ∀ {β : Type} (r : Reading β), r.Given →
        (inside n r).Makes r.Drawn := fun r hr => ih r hr
    cases r with
    | assignment => exact makes_assignment (inside n) hgo
    | level l => exact (hgo (operand l) trivial).bind fun e he => hgo (moreOperands l e) he
    | moreOperands l e => exact makes_moreOperands (inside n) hgo (l := l) hr
    | operand l => exact makes_operand (inside n) hgo l
    | unary => exact makes_unary (inside n) hgo
    | calls e => exact makes_calls (inside n) hgo hr
    | arguments count => exact makes_arguments (inside n) hgo count
    | primary => exact makes_primary (inside n) hgo
    | parameters count => exact makes_parameters (inside n) hgo count
    | _ => exact makes_fail

theorem makes_expression : Reader.expression.Makes fun e => e.form.Drawn :=
  Makes.fuelled (fun n => makes_inside n assignment trivial) expressionFuel

theorem makes_expressionUnless (s : Symbol) :
    (Reader.expressionUnless s).Makes fun e => ∀ e' ∈ e, e'.form.Drawn := by
  refine makes_any_bind fun b => ?_
  split
  · exact makes_pure nofun
  · refine makes_expression.bind fun e he => makes_pure ?_
    rintro _ ⟨⟩
    exact he

theorem makes_parameterList (sort : String) :
    (Reader.parameterList sort).Makes fun xs => ∀ x ∈ xs, x.token.Drawn := by
  have hend : ∀ xs : List Ident, (∀ x ∈ xs, x.token.Drawn) →
      (parametersEnd xs).Makes fun xs => ∀ x ∈ xs, x.token.Drawn := fun xs hxs =>
    makes_any_bind fun _ => makes_pure hxs
  have hsome : someParameters.Makes fun xs => ∀ x ∈ xs, x.token.Drawn :=
    Makes.fuelled (fun n => makes_inside n (parameters 0) trivial) fun c => c.rest.length + 1
  rw [parameterList_eq]
  refine makes_any_bind fun _ => makes_any_bind fun b => ?_
  split
  · exact hend [] nofun
  · exact hsome.bind hend

/-! ### Statements of one piece -/

theorem makes_varDecl : Reader.varDecl.Makes fun s => s.form.Drawn := by
  have hend : ∀ (start : Span) (x : Ident) (e : Option Expr), x.token.Drawn →
      (∀ e' ∈ e, e'.form.Drawn) →
      (Reader.expect .semicolon "after variable declaration" >>= fun finish =>
        pure (Stmt.var (start.merge finish) x e)).Makes fun s => s.form.Drawn := by
    intro start x e hx he
    refine makes_any_bind fun finish => makes_pure ?_
    cases e <;> simp_all [Stmt.form]
  refine makes_any_bind fun start => (makes_name _).bind fun x hx => makes_any_bind fun b => ?_
  split
  · refine Makes.bind (Q := fun e => ∀ e' ∈ e, e'.form.Drawn) (makes_expression.map fun e he =>
      ?_) fun e he =>
      hend start x e hx he
    rintro _ ⟨⟩
    exact he
  · exact hend start x none hx nofun

theorem makes_printStmt : Reader.printStmt.Makes fun s => s.form.Drawn := by
  refine makes_any_bind fun start => makes_expression.bind fun e he =>
    makes_any_bind fun finish => makes_pure ?_
  simp [Stmt.form, he]

theorem makes_returnStmt : Reader.returnStmt.Makes fun s => s.form.Drawn := by
  refine makes_any_bind fun start => (makes_expressionUnless _).bind fun e he =>
    makes_any_bind fun finish =>
    makes_pure ?_
  cases e <;> simp_all [Stmt.form]

/-- An expression that is a statement. -/
theorem drawn_exprStmt {t : Span} {e : Expr} (he : e.form.Drawn) : (Stmt.expr t e).form.Drawn := by
  simp [Stmt.form, TokenKind.drawn_symbol, he]

theorem makes_expressionStmt : Reader.expressionStmt.Makes fun s => s.form.Drawn :=
  makes_expression.bind fun _ he => makes_any_bind fun _ => makes_pure (drawn_exprStmt he)

theorem makes_forInitial : Reader.forInitial.Makes fun s => ∀ s' ∈ s, s'.form.Drawn := by
  refine makes_any_bind fun b => ?_
  split
  · exact makes_pure nofun
  · refine makes_any_bind fun b => ?_
    split
    · refine makes_varDecl.map fun s hs => ?_
      rintro _ ⟨⟩
      exact hs
    · refine makes_expression.bind fun e he => makes_any_bind fun _ => makes_pure ?_
      rintro _ ⟨⟩
      exact drawn_exprStmt he

theorem makes_superclass : Reader.superclass.Makes fun p => ∀ q ∈ p, q.name.token.Drawn := by
  refine makes_any_bind fun b => ?_
  split
  · refine (makes_name _).bind fun x hx => makes_any_bind fun s => makes_pure ?_
    rintro _ ⟨⟩
    exact hx
  · exact makes_pure nofun

/-! ### Statements in statements -/

/-- What is read one after the other, without what failed. -/
theorem makes_more {r : Reader Stmt} {rs : Reader (List Stmt)} [r.Onward] [rs.Onward]
    (hr : r.Makes fun s => s.form.Drawn) (hrs : rs.Makes fun ss => ∀ s ∈ ss, s.form.Drawn) :
    (do let s ← attempt r
        let ss ← rs
        pure (s.toList ++ ss)).Makes fun ss => ∀ s ∈ ss, s.form.Drawn := by
  refine hr.attempt.bind fun s hs => hrs.bind fun ss hss => makes_pure ?_
  exact List.forall_mem_append.mpr ⟨fun s' hs' => hs s' (Option.mem_toList.mp hs'), hss⟩

section

variable (go : Calls) (hgo : ∀ {β : Type} (r : Reading β), r.Given → (go r).Makes r.Drawn)
  [∀ {β : Type} (r : Reading β), (go r).Onward]

include hgo

private theorem makes_declarationBody (k : TokenKind) :
    (declarationBody go k).Makes fun s => s.form.Drawn := by
  unfold declarationBody
  split
  · exact hgo classDecl trivial
  · refine makes_any_bind fun _ =>
      (hgo (function "function") trivial).bind fun d hd => makes_pure ?_
    exact hd _ (TokenKind.drawn_keyword .fun)
  · exact makes_varDecl
  · exact hgo statement trivial

private theorem makes_declaration : (body go declaration).Makes (Drawn declaration) := by
  intro c hc
  have hbody := makes_declarationBody go hgo c.kind c hc
  change ∀ s, (StatementRuns.recovered (declarationBody go c.kind c)).1 = some s → s.form.Drawn
  generalize declarationBody go c.kind c = o at hbody ⊢
  obtain ⟨_ | s, d⟩ := o
  · rintro _ ⟨⟩
  · exact hbody

private theorem makes_declarations : (body go declarations).Makes (Drawn declarations) := by
  refine makes_any_bind fun b => ?_
  split
  · exact makes_pure nofun
  · exact makes_more (hgo declaration trivial) (hgo declarations trivial)

private theorem makes_block : (body go block).Makes (Drawn block) :=
  makes_any_bind fun _ => (hgo declarations trivial).bind fun _ hss => makes_any_bind fun _ =>
    makes_pure hss

private theorem makes_function (sort : String) :
    (body go (function sort)).Makes (Drawn (function sort)) := by
  refine (makes_name _).bind fun x hx => (makes_parameterList _).bind fun ps hps =>
    makes_any_bind fun b => ?_
  split
  · exact (hgo block trivial).bind fun b hb => makes_pure (FunctionDecl.drawn_mk hx hps hb)
  · exact makes_any_bind fun _ => makes_fail

private theorem makes_methods : (body go methods).Makes (Drawn methods) := by
  refine makes_any_bind fun b => ?_
  split
  · exact makes_pure nofun
  · refine (hgo (function "method") trivial).bind fun d hd =>
      (hgo methods trivial).bind fun ds hds => ?_
    exact makes_pure (List.forall_mem_cons.mpr ⟨hd, hds⟩)

private theorem makes_classDecl : (body go classDecl).Makes (Drawn classDecl) := by
  refine makes_any_bind fun start => (makes_name _).bind fun x hx =>
    makes_superclass.bind fun p hp => ?_
  refine makes_any_bind fun _ => (hgo methods trivial).bind fun ms hms =>
    makes_any_bind fun finish => makes_pure ?_
  have hless : (TokenKind.symbol .less).Drawn := TokenKind.drawn_symbol nofun nofun
  have hparent : ∀ m ∈ Superclass.forms p, m.Drawn := by cases p <;> simp_all [Superclass.forms]
  simp only [Drawn, Stmt.form, Form.drawn_node, List.forall_mem_cons, Form.drawn_word,
    List.forall_mem_append]
  exact ⟨TokenKind.drawn_keyword .cls, hx, hparent, FunctionDecl.drawn_forms hms⟩

private theorem makes_statement : (body go statement).Makes (Drawn statement) := by
  refine makes_any_bind fun k => ?_
  split
  · exact makes_printStmt
  · exact hgo ifStmt trivial
  · exact hgo whileStmt trivial
  · exact hgo forStmt trivial
  · exact makes_returnStmt
  · refine (hgo block trivial).bind fun b hb => makes_pure ?_
    have hname : (TokenKind.identifier "block").Drawn := TokenKind.drawn_names _ (by decide)
    simpa [Drawn, Stmt.form, Stmt.drawn_forms, hname] using hb
  · exact makes_expressionStmt

private theorem makes_ifStmt : (body go ifStmt).Makes (Drawn ifStmt) := by
  have hend : ∀ (start : Span) (e : Expr) (yes : Stmt) (no : Option Stmt), e.form.Drawn →
      yes.form.Drawn →
      (∀ s ∈ no, s.form.Drawn) → (ifEnd start e yes no).Makes (Drawn ifStmt) := by
    intro start e yes no he hyes hno
    refine makes_any_bind fun t => makes_pure ?_
    cases no <;> simp_all [Drawn, Stmt.form]
  refine makes_any_bind fun start => makes_any_bind fun _ => makes_expression.bind fun e he => ?_
  refine makes_any_bind fun _ => (hgo statement trivial).bind fun yes hyes =>
    makes_any_bind fun b => ?_
  split
  · refine Makes.bind (Q := fun s => ∀ s' ∈ s,
      s'.form.Drawn) ((hgo statement trivial).map fun s hs => ?_)
      fun no hno => hend start e yes no he hyes hno
    rintro _ ⟨⟩
    exact hs
  · exact hend start e yes none he hyes nofun

private theorem makes_whileStmt : (body go whileStmt).Makes (Drawn whileStmt) := by
  refine makes_any_bind fun start => makes_any_bind fun _ => makes_expression.bind fun e he => ?_
  refine makes_any_bind fun _ => (hgo statement trivial).bind fun s (hs : s.form.Drawn) => ?_
  exact makes_any_bind fun t => makes_pure (by simp [Drawn, Stmt.form, he, hs])

private theorem makes_forStmt : (body go forStmt).Makes (Drawn forStmt) := by
  refine makes_any_bind fun start => makes_any_bind fun _ => makes_forInitial.bind fun i hi => ?_
  refine (makes_expressionUnless _).bind fun condition hcondition => makes_any_bind fun t => ?_
  refine (makes_expressionUnless _).bind fun increment hincrement => makes_any_bind fun _ => ?_
  refine (hgo statement trivial).bind fun s hs => ?_
  cases condition with
  | some e =>
    exact makes_any_bind fun _ =>
      makes_pure (Stmt.drawn_forLoop hi (hcondition e rfl) hincrement hs)
  | none =>
    refine makes_any_bind fun _ => makes_any_bind fun site => makes_pure ?_
    exact Stmt.drawn_forLoop hi (by simp [Expr.form, Literal.token]) hincrement hs

/-- Whatever a reader reads is drawn from tokens, if this is so for the readers that it calls. -/
theorem makes_body (r : Reading α) (hr : r.Given) : (body go r).Makes r.Drawn := by
  cases r with
  | assignment => exact makes_assignment go hgo
  | level l => exact (hgo (operand l) trivial).bind fun e he => hgo (moreOperands l e) he
  | moreOperands l e => exact makes_moreOperands go hgo (l := l) hr
  | operand l => exact makes_operand go hgo l
  | unary => exact makes_unary go hgo
  | calls e => exact makes_calls go hgo hr
  | arguments count => exact makes_arguments go hgo count
  | primary => exact makes_primary go hgo
  | parameters count => exact makes_parameters go hgo count
  | declaration => exact makes_declaration go hgo
  | declarations => exact makes_declarations go hgo
  | block => exact makes_block go hgo
  | function sort => exact makes_function go hgo sort
  | methods => exact makes_methods go hgo
  | classDecl => exact makes_classDecl go hgo
  | statement => exact makes_statement go hgo
  | ifStmt => exact makes_ifStmt go hgo
  | whileStmt => exact makes_whileStmt go hgo
  | forStmt => exact makes_forStmt go hgo
  | topLevel => exact hr.elim
  | expect s place => exact makes_any _
  | name role => exact makes_name role
  | expression => exact makes_expression
  | expressionUnless s => exact makes_expressionUnless s
  | parameterList sort => exact makes_parameterList sort
  | varDecl => exact makes_varDecl
  | printStmt => exact makes_printStmt
  | returnStmt => exact makes_returnStmt
  | expressionStmt => exact makes_expressionStmt
  | forInitial => exact makes_forInitial
  | superclass => exact makes_superclass

end

private theorem makes_reader (n : Nat) (r : Reading α) (hr : r.Given) :
    (r.reader n).Makes r.Drawn := by
  induction n generalizing α with
  | zero =>
    have hnone : ∀ {β : Type} (s : Reading β), s.Given →
        (fail : Reader β).Makes s.Drawn := fun _ _ => makes_fail
    cases r
    case expect | name | expression | expressionUnless | parameterList | varDecl | printStmt | returnStmt |
        expressionStmt | forInitial | superclass =>
      exact makes_body (fun _ => fail) hnone _ hr
    all_goals exact makes_fail
  | succ n ih =>
    rw [reader_succ]
    exact makes_body (reader n) (fun s hs => ih s hs) r hr

/-- The declarations at the outermost level. -/
theorem makes_topLevel (n : Nat) : (Reader.topLevel n).Makes fun ss => ∀ s ∈ ss, s.form.Drawn := by
  induction n with
  | zero => exact makes_fail
  | succ n ih =>
    refine makes_any_bind fun b => ?_
    split
    · exact makes_pure nofun
    · have hdeclaration : nextDeclaration.Makes fun s => s.form.Drawn :=
        Makes.fuelled (fun n => makes_reader n declaration trivial) fun c => 4 * (c.rest.length + 1)
      exact makes_more (r := nextDeclaration) hdeclaration ih

end Reading

/-- In the program that is read from a text all words are tokens of the text, or words of forms. -/
theorem Parsed.drawn_ofTokens (text : String) (firstId : Nat) :
    ∀ s ∈ (ofTokens (Lexed.ofText text).tokens firstId).program.body, s.form.Drawn := by
  have hlexical : (Cursor.ofTokens (Lexed.ofText text).tokens firstId).Lexical := fun t ht =>
    Lexed.lexical_ofText text t ((List.takeWhile_prefix _).subset ht)
  generalize hc : Cursor.ofTokens (Lexed.ofText text).tokens firstId = c at hlexical
  intro s hs
  have hbody : s ∈ (Reader.topLevel (c.rest.length + 1) c).1.getD [] := hc ▸ hs
  cases hread : (Reader.topLevel (c.rest.length + 1) c).1 with
  | none =>
    rw [hread] at hbody
    cases hbody
  | some body =>
    rw [hread] at hbody
    exact Reading.makes_topLevel _ c hlexical body hread s hbody

end Lox
