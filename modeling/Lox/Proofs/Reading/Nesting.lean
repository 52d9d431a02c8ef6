import Lox.Proofs.Reading.Extent
import Lox.Proofs.Reading.Termination
/-!
# Spans nest

Whatever a reader puts together lies between where it started and the last token that it read, and
spans all that stands in it.
-/

namespace Lox

/-! ### Loops that stand for `for` -/

/-- What is in the clauses and the body of a `for` loop lies in its span, and so in all that
the loop stands for. -/
theorem Stmt.nested_forLoop {t : Span} {i : Option Stmt} {c : Expr} {e : Option Expr} {b : Stmt}
    (hi : ∀ s ∈ i, s.span.Within t ∧ (Node.stmt s).Nested)
    (hc : c.span.Within t ∧ (Node.expr c).Nested)
    (he : ∀ e' ∈ e, e'.span.Within t ∧ (Node.expr e').Nested)
    (hb : b.span.Within t ∧ (Node.stmt b).Nested) :
    (Stmt.forLoop t i c e b).span = t ∧ (Node.stmt (Stmt.forLoop t i c e b)).Nested := by
  have hblock : ∀ b b' : Stmt, b.span.Within t ∧ (Node.stmt b).Nested →
      b'.span.Within t ∧ (Node.stmt b').Nested →
      (Node.stmt (.block t [b, b'])).Nested := by
    intro b b' hb hb'
    exact Node.nested_iff.mpr ⟨List.forall_mem_nil _, by simpa [Node.children] using ⟨hb, hb'⟩⟩
  have hwhile : ∀ b' : Stmt, b'.span.Within t ∧ (Node.stmt b').Nested →
      (Node.stmt (.whileLoop t c b')).Nested := by
    intro b' hb'
    exact Node.nested_iff.mpr ⟨List.forall_mem_nil _, by simpa [Node.children] using ⟨hc, hb'⟩⟩
  have hexpr : ∀ e' : Expr, (Node.expr e').Nested → (Node.stmt (.expr e'.span e')).Nested := by
    intro e' he'
    exact Node.nested_iff.mpr ⟨List.forall_mem_nil _, by simpa [Node.children] using ⟨.refl _, he'⟩⟩
  have hloop : ∀ b' : Stmt, b'.span.Within t ∧ (Node.stmt b').Nested → ∀ i : Option Stmt,
      (∀ s ∈ i, s.span.Within t ∧ (Node.stmt s).Nested) →
      (Stmt.forLoop t i c none b').span = t ∧ (Node.stmt (Stmt.forLoop t i c none b')).Nested := by
    rintro b' hb' (_ | s) hi
    · exact ⟨rfl, hwhile b' hb'⟩
    · exact ⟨rfl, hblock _ _ (hi s rfl) ⟨.refl _, hwhile b' hb'⟩⟩
  cases e with
  | none => exact hloop b hb i hi
  | some e =>
    obtain ⟨hin, hn⟩ := he e rfl
    exact hloop (.block t [b, .expr e.span e]) ⟨.refl _, hblock _ _ hb ⟨hin, hexpr e hn⟩⟩ i hi

namespace Reader

open Lox.Span

variable {c : Cursor} {p : Position}

/-- An expression that is put together with the span `t`. -/
theorem stands_node {t : Span} {f : Site → Expr} {n : Nat} (hf : ∀ s, (f s).site = s)
    (ht : Lies p c t) (hn : (Node.expr (f ⟨n, t⟩)).Nested) : Stands p c (.expr (f ⟨n, t⟩)) := by
  have hspan : (f ⟨n, t⟩).span = t := congrArg Site.span (hf _)
  exact ⟨by rwa [Node.span, hspan], hn⟩

/-- An expression that reaches from `a` to `b` is put together. -/
theorem gives_node {a b : Span} {f : Site → Expr} (hf : ∀ s, (f s).site = s) (ha : Lies p c a)
    (hb : Lies p c b) (hn : ∀ n, (Node.expr (f ⟨n, a.merge b⟩)).Nested) :
    (site (a.merge b) >>= fun s => pure (f s)).Gives c fun e d => Stands p d (.expr e) := by
  refine (gives_site _).bind fun s d h hs => gives_pure ?_
  obtain ⟨n, rfl, hd⟩ := hs
  exact stands_node hf ((ha.merge hb).mono (le_refl _) (by rw [hd])) (hn n)

/-- An expression that is one token. -/
theorem gives_token (hc : c.Past p) (hrest : c.rest ≠ []) {f : Site → Expr}
    (hf : ∀ s, (f s).site = s) (hn : ∀ n, (Node.expr (f ⟨n, c.span⟩)).Nested) :
    (advance >>= fun _ => site c.span >>= fun s => pure (f s)).Gives c fun e d =>
      Stands p d (.expr e) := by
  rintro _ ⟨⟩
  have hlies := (lies_advance hc hrest).1
  exact stands_node hf ⟨hlies.lower, hlies.proper, hlies.upper⟩ (hn _)

private theorem gives_infixNode {l r : Expr} {t : Span} (op : InfixOp) (hl : Stands p c (.expr l))
    (hr : Stands p c (.expr r)) (ht : t.Within (l.span.merge r.span)) :
    (infixNode l op t r).Gives c fun e d => Stands p d (.expr e) := by
  have hchildren : ∀ m ∈ [Node.expr l, .expr r], m.span.Within (l.span.merge r.span) ∧
      m.Nested := by
    simpa using ⟨⟨within_merge_left _ _, hl.nested⟩, within_merge_right _ _, hr.nested⟩
  cases op with
  | logical o =>
    refine gives_node (fun _ => rfl) hl.toLies hr.toLies fun n =>
      Node.nested_iff.mpr ⟨?_, hchildren⟩
    exact List.forall_mem_nil _
  | binary o =>
    refine gives_node (fun _ => rfl) hl.toLies hr.toLies fun n =>
      Node.nested_iff.mpr ⟨?_, hchildren⟩
    exact List.forall_mem_singleton.mpr ht

private theorem gives_assignNode {e v : Expr} {t : Span} (he : Stands p c (.expr e))
    (hv : Stands p c (.expr v)) : (assignNode e t v).Gives c fun e d => Stands p d (.expr e) := by
  have hleft : ∀ {t : Span}, t.Within e.span → t.Within (e.span.merge v.span) := fun ht =>
    ht.trans (within_merge_left _ _)
  have hv' : (Node.expr v).span.Within (e.span.merge v.span) ∧ (Node.expr v).Nested :=
    ⟨within_merge_right _ _, hv.nested⟩
  obtain ⟨hmarks, hchildren⟩ := Node.nested_iff.mp he.nested
  unfold assignNode
  split
  · refine gives_node (fun _ => rfl) he.toLies hv.toLies fun n =>
      Node.nested_iff.mpr ⟨fun t ht => hleft (hmarks t ht), ?_⟩
    exact List.forall_mem_singleton.mpr hv'
  · refine gives_node (fun _ => rfl) he.toLies hv.toLies fun n =>
      Node.nested_iff.mpr ⟨fun t ht => hleft (hmarks t ht), ?_⟩
    have hobject := List.forall_mem_singleton.mp hchildren
    exact List.forall_mem_cons.mpr ⟨⟨hleft hobject.1, hobject.2⟩, List.forall_mem_singleton.mpr hv'⟩
  · -- The target stands for the whole assignment, so that nothing of what was read after it is in the tree.
    rintro _ ⟨⟩
    exact ⟨⟨he.lower, he.proper, he.upper⟩, he.nested⟩

end Reader

namespace Reading

open Reader Lox.Span

variable {α : Type} {c d : Cursor} {p : Position}

/-- What was read before the reader is called is before the cursor, and readers that start with a
certain token are called only if it is there. The outermost list is read by no other reader. -/
def Ready (p : Position) (c : Cursor) : {α : Type} → Reading α → Prop
  | _, moreOperands _ e | _, calls e => Stands p c (.expr e)
  | _, classDecl | _, ifStmt | _, whileStmt | _, forStmt | _, varDecl | _, printStmt
  | _, returnStmt => c.rest ≠ []
  | _, topLevel => False
  | _, _ => True

/-- What was read lies between the position `p` and the cursor `d`. -/
def Lying (p : Position) : {α : Type} → Reading α → α → Cursor → Prop
  | _, assignment, e, d | _, level _, e, d | _, moreOperands _ _, e, d | _, operand _, e, d
  | _, unary, e, d
  | _, calls _, e, d | _, primary, e, d | _, expression, e, d => Stands p d (.expr e)
  | _, arguments _, es, d => ∀ e ∈ es, Stands p d (.expr e)
  | _, expressionUnless _, e, d => ∀ e' ∈ e, Stands p d (.expr e')
  | _, parameters _, xs, d | _, parameterList _, xs, d => ∀ x ∈ xs, Lies p d x.span
  | _, declaration, s, d | _, classDecl, s, d | _, statement, s, d | _, ifStmt, s, d
  | _, whileStmt, s, d
  | _, forStmt, s, d | _, varDecl, s, d | _, printStmt, s, d | _, returnStmt, s, d
  | _, expressionStmt, s, d => Stands p d (.stmt s)
  | _, forInitial, s, d => ∀ s' ∈ s, Stands p d (.stmt s')
  | _, declarations, ss, d | _, topLevel, ss, d => ∀ s ∈ ss, Stands p d (.stmt s)
  | _, block, b, d => Stands p d (.stmt (.block b.2 b.1))
  | _, function _, f, d => Stands p d (.function f)
  | _, methods, fs, d => ∀ f ∈ fs, Stands p d (.function f)
  | _, expect _ _, t, d => Lies p d t
  | _, name _, x, d => Lies p d x.span
  | _, superclass, q, d => ∀ q' ∈ q, Stands p d (.expr q'.node)

section

variable (go : Calls)
  (hgo : ∀ {β : Type} (s : Reading β) {c : Cursor} {p : Position}, c.Past p → s.Ready p c →
    (go s).Gives c (s.Lying p))

include hgo

theorem gives_operand (hc : c.Past p) (l : Level) :
    (body go (operand l)).Gives c (Lying p (operand l)) := by
  simp only [body]
  split
  · exact hgo (level _) hc trivial
  · exact hgo unary hc trivial

/-- A call or an access, which reaches from its expression to the token `t`, is the expression
for what follows. -/
theorem gives_callNode {e : Expr} {t : Span} {f : Site → Expr} (hc : c.Past p)
    (hf : ∀ s, (f s).site = s) (he : Lies p c e.span) (ht : Lies p c t)
    (hn : ∀ n, (Node.expr (f ⟨n, e.span.merge t⟩)).Nested) :
    (site (e.span.merge t) >>= fun s => go (calls (f s))).Gives c (Lying p (calls e)) := by
  refine (gives_site _).bind fun s d h hs => ?_
  obtain ⟨n, rfl, hprevious⟩ := hs
  exact hgo (calls (f ⟨n, e.span.merge t⟩)) (hc.ahead h).1
    (stands_node hf ((he.merge ht).mono (le_refl _) (by rw [hprevious])) (hn n))

/-- What comes behind the arguments of a call. -/
theorem gives_callEnd {e : Expr} {es : List Expr} (hc : c.Past p) (he : (Node.expr e).Nested)
    (hin : Lies p c e.span) (hes : ∀ e' ∈ es, Stands e.span.first c (.expr e')) :
    (do let paren ← Reader.expect .rightParen "after arguments"
        let s ← site (e.span.merge paren)
        go (calls (.call s e paren es)) : Reader Expr).Gives c (Lying p (calls e)) := by
  refine (gives_expect hc.here _ _).bind fun t d h ht => ?_
  obtain ⟨hd, hle, -⟩ := hc.ahead h
  refine gives_callNode go hgo (f := fun s => .call s e t es) hd (fun _ => rfl)
    (hin.mono (le_refl _) hle)
    (ht.mono hc.lower (le_refl _)) fun n => Node.nested_iff.mpr ⟨?_, ?_⟩
  · exact List.forall_mem_singleton.mpr (within_merge_right _ _)
  · refine List.forall_mem_cons.mpr ⟨⟨within_merge_left _ _, he⟩, fun m hm => ?_⟩
    obtain ⟨e', he', rfl⟩ := List.mem_map.mp hm
    have h' := hes e' he'
    exact ⟨within_merge h'.lower ((h'.before hc ht).trans ht.proper), h'.nested⟩

variable [∀ {β : Type} (s : Reading β), (go s).Onward]

theorem gives_assignment (hc : c.Past p) : (body go assignment).Gives c (Lying p assignment) := by
  refine (hgo (level .or) hc trivial).bind fun e c₁ h₁ (he : Stands p c₁ (.expr e)) => ?_
  obtain ⟨hc₁, -⟩ := hc.ahead h₁
  refine (gives_any (eat .eq) c₁).bind fun b c₂ h₂ _ => ?_
  obtain ⟨hc₂, hle₂, -⟩ := hc₁.ahead h₂
  have he₂ := he.mono (le_refl _) hle₂
  split
  · refine gives_ask_bind
      ((hgo assignment hc₂ trivial).bind fun v c₃ h₃ (hv : Stands p c₃ (.expr v)) => ?_)
    exact gives_assignNode (he₂.mono (le_refl _) (hc₂.ahead h₃).2.1) hv
  · exact gives_pure he₂

theorem gives_level (hc : c.Past p) (l : Level) : (body go (level l)).Gives c (Lying p (level l)) :=
  (hgo (operand l) hc trivial).bind fun e _ h he => hgo (moreOperands l e) (hc.ahead h).1 he

theorem gives_moreOperands (hc : c.Past p) {l : Level} {e : Expr} (he : Stands p c (.expr e)) :
    (body go (moreOperands l e)).Gives c (Lying p (moreOperands l e)) := by
  refine gives_ask_bind ?_
  cases ho : l.operator? c.kind with
  | none => exact gives_pure he
  | some op =>
    have hrest : c.rest ≠ [] := by
      intro hr
      rw [Cursor.kind, hr] at ho
      cases l <;> cases ho
    refine (gives_advance hc.here hrest).bind fun t c₁ h₁ hread => ?_
    obtain ⟨-, ht, -⟩ := hread
    obtain ⟨hc₁, hle₁, -⟩ := hc.ahead h₁
    refine (hgo (operand l) hc₁.here trivial).bind
      fun r c₂ h₂ (hr : Stands c₁.span.first c₂ (.expr r)) => ?_
    obtain ⟨hc₂, hle₂, -⟩ := hc₁.ahead h₂
    have htoken : t.Within (e.span.merge r.span) :=
      within_merge (he.proper.trans (he.before hc ht)) ((ht.before hc₁ hr.toLies).trans hr.proper)
    refine (gives_infixNode op (he.mono (le_refl _) (hle₁.trans hle₂))
      (hr.mono hc₁.lower (le_refl _)) htoken).bind
      fun n c₃ h₃ hn => hgo (moreOperands l n) (hc₂.ahead h₃).1 hn

theorem gives_unary (hc : c.Past p) : (body go unary).Gives c (Lying p unary) := by
  refine gives_ask_bind ?_
  cases ho : UnaryOp.ofToken? c.kind with
  | none => exact (hgo primary hc trivial).bind fun e _ h he => hgo (calls e) (hc.ahead h).1 he
  | some op =>
    have hrest : c.rest ≠ [] := by
      intro hr
      rw [Cursor.kind, hr] at ho
      cases ho
    refine (gives_advance hc hrest).bind fun t c₁ h₁ hread => ?_
    obtain ⟨-, ht, -⟩ := hread
    obtain ⟨hc₁, hle₁, -⟩ := hc.ahead h₁
    refine (hgo unary hc₁ trivial).bind fun e c₂ h₂ (he : Stands p c₂ (.expr e)) => ?_
    obtain ⟨hc₂, hle₂, -⟩ := hc₁.ahead h₂
    refine gives_node (fun _ => rfl) (ht.mono (le_refl _) hle₂) he.toLies fun n =>
      Node.nested_iff.mpr ⟨?_, ?_⟩
    · exact List.forall_mem_singleton.mpr (within_merge_left _ _)
    · exact List.forall_mem_singleton.mpr ⟨within_merge_right _ _, he.nested⟩

theorem gives_calls (hc : c.Past p) {e : Expr} (he : Stands p c (.expr e)) :
    (body go (calls e)).Gives c (Lying p (calls e)) := by
  refine (gives_any (eat .leftParen) c).bind fun b c₁ h₁ _ => ?_
  obtain ⟨hc₁, hle₁, -⟩ := hc.ahead h₁
  have he₁ := he.mono (le_refl _) hle₁
  split
  · refine gives_ask_bind ?_
    split
    · exact gives_callEnd go hgo hc₁ he.nested he₁.toLies (List.forall_mem_nil _)
    · refine (hgo (arguments 0) hc₁.here trivial).bind fun es c₂ h₂ hes => ?_
      obtain ⟨hc₂, hle₂, -⟩ := hc₁.ahead h₂
      refine gives_callEnd go hgo hc₂ he.nested (he₁.toLies.mono (le_refl _) hle₂) fun e' he' => ?_
      exact (hes e' he').mono (he₁.proper.trans (he₁.upper.trans hc₁.previous)) (le_refl _)
  · refine (gives_any (eat .dot) c₁).bind fun b c₂ h₂ _ => ?_
    obtain ⟨hc₂, hle₂, -⟩ := hc₁.ahead h₂
    have he₂ := he₁.mono (le_refl _) hle₂
    split
    · refine (gives_name hc₂ _).bind fun x c₃ h₃ hx => ?_
      obtain ⟨hc₃, hle₃, -⟩ := hc₂.ahead h₃
      refine gives_callNode go hgo (f := fun s => .get s e x) hc₃ (fun _ => rfl)
        (he₂.toLies.mono (le_refl _) hle₃) hx
        fun n => Node.nested_iff.mpr ⟨?_, ?_⟩
      · exact List.forall_mem_singleton.mpr (within_merge_right _ _)
      · exact List.forall_mem_singleton.mpr ⟨within_merge_left _ _, he.nested⟩
    · exact gives_pure he₂

theorem gives_arguments (hc : c.Past p) (count : Nat) :
    (body go (arguments count)).Gives c (Lying p (arguments count)) := by
  have hrest : ∀ {d : Cursor}, d.Past p → (do
      let e ← go assignment
      if ← eat .comma then
        let es ← go (arguments (count + 1))
        pure (e :: es)
      else
        pure [e] : Reader (List Expr)).Gives d (Lying p (arguments count)) := by
    intro d hd
    refine (hgo assignment hd trivial).bind fun e d₁ h₁ (he : Stands p d₁ (.expr e)) => ?_
    obtain ⟨hd₁, -⟩ := hd.ahead h₁
    refine (gives_any (eat .comma) d₁).bind fun b d₂ h₂ _ => ?_
    obtain ⟨hd₂, hle₂, -⟩ := hd₁.ahead h₂
    have he₂ := he.mono (le_refl _) hle₂
    split
    · refine (hgo (arguments (count + 1)) hd₂ (by simp only [Ready])).bind fun es d₃ h₃ hes =>
        gives_pure ?_
      exact List.forall_mem_cons.mpr ⟨he₂.mono (le_refl _) (hd₂.ahead h₃).2.1, hes⟩
    · exact gives_pure (List.forall_mem_singleton.mpr he₂)
  change (if maxArity ≤ count then report .tooManyArguments >>=
      fun _ => _ else _ : Reader _).Gives c _
  split
  · exact (gives_any (report .tooManyArguments) c).bind fun _ d h _ => hrest (hc.ahead h).1
  · exact hrest hc

theorem gives_parameters (hc : c.Past p) (count : Nat) :
    (body go (parameters count)).Gives c (Lying p (parameters count)) := by
  have hrest : ∀ {d : Cursor}, d.Past p → (do
      let x ← Reader.name "parameter name"
      if ← eat .comma then
        let xs ← go (parameters (count + 1))
        pure (x :: xs)
      else
        pure [x] : Reader (List Ident)).Gives d (Lying p (parameters count)) := by
    intro d hd
    refine (gives_name hd _).bind fun x d₁ h₁ hx => ?_
    obtain ⟨hd₁, -⟩ := hd.ahead h₁
    refine (gives_any (eat .comma) d₁).bind fun b d₂ h₂ _ => ?_
    obtain ⟨hd₂, hle₂, -⟩ := hd₁.ahead h₂
    have hx₂ := hx.mono (le_refl _) hle₂
    split
    · refine (hgo (parameters (count + 1)) hd₂ (by simp only [Ready])).bind fun xs d₃ h₃ hxs =>
        gives_pure ?_
      exact List.forall_mem_cons.mpr ⟨hx₂.mono (le_refl _) (hd₂.ahead h₃).2.1, hxs⟩
    · exact gives_pure (List.forall_mem_singleton.mpr hx₂)
  change (if maxArity ≤ count then report .tooManyParameters >>=
      fun _ => _ else _ : Reader _).Gives c _
  split
  · exact (gives_any (report .tooManyParameters) c).bind fun _ d h _ => hrest (hc.ahead h).1
  · exact hrest hc

theorem gives_primary (hc : c.Past p) : (body go primary).Gives c (Lying p primary) := by
  refine gives_ask_bind (gives_ask_bind ?_)
  generalize hk : c.kind = k
  split
  · exact gives_token hc (rest_ne_nil_of_kind (by rw [hk]; rfl)) (f := .this)
      (fun _ => rfl) fun n =>
      Node.nested_iff.mpr ⟨List.forall_mem_nil _, List.forall_mem_nil _⟩
  · rename_i x
    exact gives_token hc (rest_ne_nil_of_kind (by rw [hk]; rfl)) (f := (.var · ⟨x, c.span⟩))
      (fun _ => rfl) fun n =>
      Node.nested_iff.mpr ⟨List.forall_mem_singleton.mpr (.refl _), List.forall_mem_nil _⟩
  · refine (gives_advance hc.here (rest_ne_nil_of_kind (by rw [hk]; rfl))).bind fun _ c₁ h₁ hread =>
      ?_
    obtain ⟨ht, hstart, -⟩ := hread
    rw [ht] at hstart
    obtain ⟨hc₁, -⟩ := hc.ahead h₁
    refine (gives_expect hc₁.here _ _).bind fun dot c₂ h₂ _ => ?_
    obtain ⟨hc₂, hle₂, -⟩ := hc₁.ahead h₂
    refine (gives_name hc₂ _).bind fun x c₃ h₃ hx => ?_
    obtain ⟨-, hle₃, -⟩ := hc₂.ahead h₃
    refine gives_node (fun _ => rfl) (hstart.mono hc.lower (hle₂.trans hle₃)) hx fun n => ?_
    exact Node.nested_iff.mpr ⟨List.forall_mem_singleton.mpr (within_merge_right _ _),
      List.forall_mem_nil _⟩
  · refine (gives_advance hc.here (rest_ne_nil_of_kind (by rw [hk]; rfl))).bind fun _ c₁ h₁ hread =>
      ?_
    obtain ⟨ht, hstart, -⟩ := hread
    rw [ht] at hstart
    obtain ⟨hc₁, -⟩ := hc.ahead h₁
    refine (hgo assignment hc₁.here trivial).bind
      fun e c₂ h₂ (he : Stands c₁.span.first c₂ (.expr e)) => ?_
    obtain ⟨hc₂, hle₂, -⟩ := hc₁.ahead h₂
    refine (gives_expect hc₂.here _ _).bind fun paren c₃ h₃ hparen => ?_
    obtain ⟨-, hle₃, -⟩ := hc₂.ahead h₃
    have hinner : e.span.Within (c.span.merge paren) := within_merge
      (hstart.proper.trans (hstart.before hc₁ he.toLies))
        ((he.before hc₂ hparen).trans hparen.proper)
    refine gives_node (fun _ => rfl) (hstart.mono hc.lower (hle₂.trans hle₃))
      (hparen.mono hc₂.lower (le_refl _)) fun n => ?_
    exact Node.nested_iff.mpr ⟨List.forall_mem_nil _,
      List.forall_mem_singleton.mpr ⟨hinner, he.nested⟩⟩
  · cases hv : Literal.ofToken? k with
    | none => exact (gives_any _ _).bind fun _ _ _ _ => gives_fail
    | some v =>
      have hrest : c.rest ≠ [] := by
        intro hr
        rw [← hk, Cursor.kind, hr] at hv
        cases hv
      exact gives_token hc hrest (f := (.literal · v)) (fun _ => rfl) fun n =>
        Node.nested_iff.mpr ⟨List.forall_mem_nil _, List.forall_mem_nil _⟩

end

/-! ### Expressions and parameters as a whole -/

/-- The readers of expressions and of parameters with fuel `n`. They call no others. -/
def inside (n : Nat) : Calls
  | _, assignment => Reader.assignment n
  | _, level l => Reader.level n l
  | _, moreOperands l left => Reader.moreOperands n l left
  | _, operand l => Reader.operand n l
  | _, unary => Reader.unary n
  | _, calls e => Reader.calls n e
  | _, arguments count => Reader.arguments n count
  | _, primary => Reader.primary n
  | _, parameters count => Reader.parameters n count
  | _, _ => fail

instance (n : Nat) (r : Reading α) : (inside n r).Onward := by
  cases r <;> unfold inside <;> infer_instance

theorem gives_inside (n : Nat) (r : Reading α) (hc : c.Past p) (hr : r.Ready p c) :
    (inside n r).Gives c (r.Lying p) := by
  induction n generalizing α c p with
  | zero => cases r <;> exact gives_fail
  | succ n ih =>
    have hgo : ∀ {β : Type} (s : Reading β) {c : Cursor} {p : Position}, c.Past p → s.Ready p c →
        (inside n s).Gives c (s.Lying p) := fun s _ _ hc hs => ih s hc hs
    cases r with
    | assignment => exact gives_assignment (inside n) hgo hc
    | level l => exact gives_level (inside n) hgo hc l
    | moreOperands l e => exact gives_moreOperands (inside n) hgo hc (l := l) hr
    | operand l => exact gives_operand (inside n) hgo hc l
    | unary => exact gives_unary (inside n) hgo hc
    | calls e => exact gives_calls (inside n) hgo hc hr
    | arguments count => exact gives_arguments (inside n) hgo hc count
    | primary => exact gives_primary (inside n) hgo hc
    | parameters count => exact gives_parameters (inside n) hgo hc count
    | _ => exact gives_fail

theorem gives_expression (hc : c.Past p) : Reader.expression.Gives c (Lying p expression) :=
  .congr (gives_inside (expressionFuel c) assignment hc trivial) rfl

theorem gives_expressionUnless (hc : c.Past p) (s : Symbol) :
    (Reader.expressionUnless s).Gives c (Lying p (expressionUnless s)) := by
  refine gives_ask_bind ?_
  split
  · exact gives_pure nofun
  · refine (gives_expression hc).bind fun e d h (he : Stands p d (.expr e)) => gives_pure ?_
    rintro _ ⟨⟩
    exact he

theorem gives_parameterList (hc : c.Past p) (sort : String) :
    (Reader.parameterList sort).Gives c (Lying p (parameterList sort)) := by
  have hend : ∀ {d : Cursor} {xs : List Ident}, d.Past p → (∀ x ∈ xs, Lies p d x.span) →
      (parametersEnd xs).Gives d (Lying p (parameterList sort)) := fun hd hxs =>
    (gives_any _ _).bind fun _ _ h _ => gives_pure fun x hx =>
      (hxs x hx).mono (le_refl _) (hd.ahead h).2.1
  rw [parameterList_eq]
  refine (gives_any _ _).bind fun _ c₁ h₁ _ => gives_ask_bind ?_
  obtain ⟨hc₁, -⟩ := hc.ahead h₁
  split
  · exact hend hc₁ (List.forall_mem_nil _)
  · refine Gives.bind (gives_inside (c₁.rest.length + 1) (parameters 0) hc₁ trivial :
      someParameters.Gives c₁ (Lying p (parameters 0))) fun xs c₂ h₂ hxs =>
        hend (hc₁.ahead h₂).1 hxs

end Reading

end Lox
