import Lox.Proofs.Reading.Nesting
import Lox.Proofs.Reading.Progress
/-!
# The spans of statements and programs

A statement reaches from its first token to its last one, or to the end of the statement that it
ends with. What is read between is spanned by it, the nodes that stand for a `for` loop included.
The tokens of a text stand in order, so the spans of a program nest.
-/

namespace Lox

namespace Reading

open Reader

variable {α : Type} {c d : Cursor} {p : Position}

/-! ### Statements of one piece -/

theorem gives_varDecl (hc : c.Past p) (hrest : c.rest ≠ []) :
    Reader.varDecl.Gives c (Lying p varDecl) := by
  refine (gives_advance hc.here hrest).bind fun start c₁ h₁ ⟨_, hstart, _⟩ => ?_
  obtain ⟨hc₁, -⟩ := hc.ahead h₁
  refine (gives_name hc₁.here _).bind fun x c₂ h₂ hx => ?_
  obtain ⟨hc₂, hle₂, -⟩ := hc₁.here.ahead h₂
  have hend : ∀ {d : Cursor} {e : Option Expr}, d.Past c₁.span.first →
      c₂.previous.last ≤ d.previous.last →
      (∀ e' ∈ e, Stands c₁.span.first d (.expr e')) →
      (Reader.expect .semicolon "after variable declaration" >>= fun finish =>
        pure (Stmt.var (start.merge finish) x e)).Gives d (Lying p varDecl) := by
    intro d e hd hle he
    refine (gives_expect hd.here _ _).bind fun finish d' h hfinish => gives_pure ?_
    have hin : ∀ {t : Span}, Lies c₁.span.first d t → t.Within (start.merge finish) := fun ht =>
      ht.within_merge (hstart.first_le hc₁) hd hfinish
    refine ⟨(hstart.mono hc.lower (hle₂.trans (hle.trans (hd.ahead h).2.1))).merge
      (hfinish.mono (hc₁.lower.trans hd.lower) (le_refl _)),
      Node.nested_iff.mpr ⟨?_, fun m hm => ?_⟩⟩
    · exact List.forall_mem_singleton.mpr (hin (hx.mono (le_refl _) hle))
    · obtain ⟨e', he', rfl⟩ := List.mem_map.mp hm
      have h' := he e' (Option.mem_toList.mp he')
      exact ⟨hin h'.toLies, h'.nested⟩
  refine (gives_any (eat .eq) c₂).bind fun b c₃ h₃ _ => ?_
  obtain ⟨hc₃, hle₃, -⟩ := hc₂.ahead h₃
  split
  · refine Gives.bind (Gives.map
      ((gives_expression hc₃).imp fun e d (he : Stands c₁.span.first d (.expr e)) => ?_) :
      Gives _ c₃ fun e d => ∀ e' ∈ e, Stands c₁.span.first d (.expr e')) fun e c₄ h₄ he => ?_
    · rintro _ ⟨⟩
      exact he
    · obtain ⟨hc₄, hle₄, -⟩ := hc₃.ahead h₄
      exact hend hc₄ (hle₃.trans hle₄) he
  · exact hend hc₃ hle₃ nofun

theorem gives_printStmt (hc : c.Past p) (hrest : c.rest ≠ []) :
    Reader.printStmt.Gives c (Lying p printStmt) := by
  refine (gives_advance hc.here hrest).bind fun start c₁ h₁ ⟨_, hstart, _⟩ => ?_
  obtain ⟨hc₁, -⟩ := hc.ahead h₁
  refine (gives_expression hc₁.here).bind fun e c₂ h₂ (he : Stands c₁.span.first c₂ (.expr e)) => ?_
  obtain ⟨hc₂, hle₂, -⟩ := hc₁.ahead h₂
  refine (gives_expect hc₂.here _ _).bind fun finish d h hfinish => gives_pure ?_
  have hle := hle₂.trans (hc₂.ahead h).2.1
  refine ⟨(hstart.mono hc.lower hle).merge (hfinish.mono hc₂.lower (le_refl _)),
    Node.nested_iff.mpr ⟨nofun, ?_⟩⟩
  have hin := he.toLies.within_merge (hstart.first_le hc₁) hc₂ hfinish
  exact List.forall_mem_singleton.mpr ⟨hin, he.nested⟩

theorem gives_returnStmt (hc : c.Past p) (hrest : c.rest ≠ []) :
    Reader.returnStmt.Gives c (Lying p returnStmt) := by
  refine (gives_advance hc.here hrest).bind fun start c₁ h₁ ⟨_, hstart, _⟩ => ?_
  obtain ⟨hc₁, -⟩ := hc.ahead h₁
  refine (gives_expressionUnless hc₁.here _).bind fun e c₂ h₂ he => ?_
  obtain ⟨hc₂, hle₂, -⟩ := hc₁.ahead h₂
  refine (gives_expect hc₂.here _ _).bind fun finish d h hfinish => gives_pure ?_
  have hle := hle₂.trans (hc₂.ahead h).2.1
  refine ⟨(hstart.mono hc.lower hle).merge (hfinish.mono hc₂.lower (le_refl _)),
    Node.nested_iff.mpr ⟨?_, fun m hm => ?_⟩⟩
  · exact List.forall_mem_singleton.mpr (Span.within_merge_left _ _)
  · obtain ⟨e', he', rfl⟩ := List.mem_map.mp hm
    have h' := he e' (Option.mem_toList.mp he')
    exact ⟨h'.toLies.within_merge (hstart.first_le hc₁) hc₂ hfinish, h'.nested⟩

theorem gives_expressionStmt (hc : c.Past p) :
    Reader.expressionStmt.Gives c (Lying p expressionStmt) := by
  refine (gives_expression hc).bind fun e c₁ h₁ (he : Stands p c₁ (.expr e)) => ?_
  obtain ⟨hc₁, -⟩ := hc.ahead h₁
  refine (gives_expect hc₁ _ _).bind fun finish d h hfinish => gives_pure ?_
  refine ⟨(he.toLies.mono (le_refl _) (hc₁.ahead h).2.1).merge hfinish,
    Node.nested_iff.mpr ⟨nofun, ?_⟩⟩
  exact List.forall_mem_singleton.mpr ⟨Span.within_merge_left _ _, he.nested⟩

theorem gives_forInitial (hc : c.Past p) : Reader.forInitial.Gives c (Lying p forInitial) := by
  refine (gives_any (eat .semicolon) c).bind fun b c₁ h₁ _ => ?_
  obtain ⟨hc₁, -⟩ := hc.ahead h₁
  split
  · exact gives_pure nofun
  · refine gives_ask_bind ?_
    split
    · rename_i hvar
      refine Gives.map ((gives_varDecl hc₁ (rest_ne_nil_of_isKeyword hvar)).imp fun s d hs => ?_)
      rintro _ ⟨⟩
      exact hs
    · refine (gives_expression hc₁).bind fun e c₂ h₂ (he : Stands p c₂ (.expr e)) => ?_
      obtain ⟨hc₂, -⟩ := hc₁.ahead h₂
      refine (gives_any _ _).bind fun _ d h _ => gives_pure ?_
      rintro _ ⟨⟩
      refine ⟨he.toLies.mono (le_refl _) (hc₂.ahead h).2.1, Node.nested_iff.mpr ⟨nofun, ?_⟩⟩
      exact List.forall_mem_singleton.mpr ⟨.refl _, he.nested⟩

theorem gives_superclass (hc : c.Past p) : Reader.superclass.Gives c (Lying p superclass) := by
  refine (gives_any (eat .less) c).bind fun b c₁ h₁ _ => ?_
  obtain ⟨hc₁, -⟩ := hc.ahead h₁
  split
  · refine (gives_name hc₁ _).bind fun x c₂ h₂ hx => ?_
    rintro _ ⟨⟩ _ ⟨⟩
    exact ⟨⟨hx.lower, hx.proper, hx.upper⟩,
      Node.nested_iff.mpr ⟨List.forall_mem_singleton.mpr (.refl _), nofun⟩⟩
  · exact gives_pure nofun

/-! ### Statements that end with a statement -/

section

variable {q : Position} {start : Span} {e : Expr}

private theorem gives_ifEnd (hstart : Lies p c start) (hc : p ≤ c.previous.first)
    (hq : start.first ≤ q) (he : Stands q c (.expr e)) {yes : Stmt} (hyes : Stands q c (.stmt yes))
    {no : Option Stmt} (hno : ∀ s ∈ no, Stands q c (.stmt s)) :
    (ifEnd start e yes no).Gives c (Lying p ifStmt) := by
  refine gives_ask_bind (gives_pure ⟨hstart.merge_previous hc, Node.nested_iff.mpr ⟨nofun, ?_⟩⟩)
  refine List.forall_mem_cons.mpr ⟨⟨he.within_previous hq, he.nested⟩,
    List.forall_mem_cons.mpr ⟨⟨hyes.within_previous hq, hyes.nested⟩,
      List.forall_mem_map.mpr fun s hs => ?_⟩⟩
  have h := hno s (Option.mem_toList.mp hs)
  exact ⟨h.within_previous hq, h.nested⟩

private theorem gives_forEnd (hstart : Lies p c start) (hc : p ≤ c.previous.first)
    (hq : start.first ≤ q) {i : Option Stmt} (hi : ∀ s ∈ i, Stands q c (.stmt s))
    {condition : Option Expr} (hcondition : ∀ e ∈ condition, Stands q c (.expr e)) {t : Span}
    (ht : Lies q c t) {increment : Option Expr} (hincrement : ∀ e ∈ increment, Stands q c (.expr e))
    {b : Stmt} (hb : Stands q c (.stmt b)) :
    (forEnd start i t increment b condition).Gives c (Lying p forStmt) := by
  have hloop : ∀ e : Expr, e.span.Within (start.merge c.previous) ∧ (Node.expr e).Nested →
      Stands p c (.stmt (.forLoop (start.merge c.previous) i e increment b)) := by
    intro e he
    obtain ⟨hspan, hnested⟩ := Stmt.nested_forLoop
      (fun s hs => ⟨(hi s hs).within_previous hq, (hi s hs).nested⟩) he
      (fun e' he' => ⟨(hincrement e' he').within_previous hq, (hincrement e' he').nested⟩)
      ⟨hb.within_previous hq, hb.nested⟩
    exact ⟨by rw [Node.span, hspan]; exact hstart.merge_previous hc, hnested⟩
  cases condition with
  | some e =>
    have he := hcondition e rfl
    exact gives_ask_bind (gives_pure (hloop e ⟨he.within_previous hq, he.nested⟩))
  | none =>
    -- The condition that is missing stands where its semicolon is.
    rintro _ ⟨⟩
    have h :=
      hloop (.literal ⟨c.nextId, t⟩ (.bool true)) ⟨ht.within_previous hq,
        Node.nested_iff.mpr ⟨nofun, nofun⟩⟩
    exact ⟨⟨h.lower, h.proper, h.upper⟩, h.nested⟩

end

/-! ### Statements in statements -/

/-- What is read one after the other, without what failed. -/
theorem gives_more {r : Reader Stmt} {rs : Reader (List Stmt)} [r.Onward] [rs.Onward]
    (hc : c.Past p) (hr : r.Gives c fun s d => Stands p d (.stmt s))
    (hrs : ∀ {d : Cursor}, d.Past p → rs.Gives d fun ss d => ∀ s ∈ ss, Stands p d (.stmt s)) :
    (do let s ← attempt r
        let ss ← rs
        pure (s.toList ++ ss)).Gives c fun ss d => ∀ s ∈ ss, Stands p d (.stmt s) := by
  have hfirst : (attempt r).Gives c fun s d => ∀ s' ∈ s, Stands p d (.stmt s') := by
    rintro _ ⟨⟩ s hs
    exact hr s hs
  refine hfirst.bind fun s c₁ h₁ hs => ?_
  obtain ⟨hc₁, -⟩ := hc.ahead h₁
  refine (hrs hc₁).bind fun ss d h hss =>
    gives_pure (List.forall_mem_append.mpr ⟨fun s' hs' => ?_, hss⟩)
  exact (hs s' (Option.mem_toList.mp hs')).mono (le_refl _) (hc₁.ahead h).2.1

section

variable (go : Calls)
  (hgo : ∀ {β : Type} (s : Reading β) {c : Cursor} {p : Position}, c.Past p → s.Ready p c →
    (go s).Gives c (s.Lying p))

include hgo

variable [∀ {β : Type} (s : Reading β), (go s).Onward]

private theorem gives_declarationBody (hc : c.Past p) :
    (declarationBody go c.kind).Gives c fun s d => Stands p d (.stmt s) := by
  generalize hk : c.kind = k
  unfold declarationBody
  split
  · exact hgo classDecl hc (rest_ne_nil_of_kind (by rw [hk]; rfl))
  · refine (gives_any advance c).bind fun _ c₁ h₁ _ => ?_
    obtain ⟨hc₁, -⟩ := hc.ahead h₁
    refine (hgo (function "function") hc₁ trivial).bind fun f d h (hf : Stands p d (.function f)) =>
      gives_pure ?_
    refine ⟨hf.toLies, Node.nested_iff.mpr ⟨nofun, ?_⟩⟩
    exact List.forall_mem_singleton.mpr ⟨.refl _, hf.nested⟩
  · exact gives_varDecl hc (rest_ne_nil_of_kind (by rw [hk]; rfl))
  · exact hgo statement hc trivial

private theorem gives_declaration (hc : c.Past p) :
    (body go declaration).Gives c (Lying p declaration) := by
  have hbody := gives_declarationBody go hgo hc
  change ∀ s, (StatementRuns.recovered (declarationBody go c.kind c)).1 = some s →
    Stands p (StatementRuns.recovered (declarationBody go c.kind c)).2 (.stmt s)
  unfold Gives at hbody
  generalize declarationBody go c.kind c = o at hbody ⊢
  obtain ⟨_ | s, d⟩ := o
  · rintro _ ⟨⟩
  · exact hbody

private theorem gives_declarations (hc : c.Past p) :
    (body go declarations).Gives c (Lying p declarations) := by
  refine gives_ask_bind ?_
  split
  · exact gives_pure nofun
  · exact gives_more hc (hgo declaration hc trivial) fun hd => hgo declarations hd trivial

private theorem gives_block (hc : c.Past p) : (body go block).Gives c (Lying p block) := by
  refine (gives_expect hc.here _ _).bind fun start c₁ h₁ hstart => ?_
  obtain ⟨hc₁, -⟩ := hc.ahead h₁
  refine (hgo declarations hc₁.here trivial).bind fun ss c₂ h₂ hss => ?_
  obtain ⟨hc₂, hle₂, -⟩ := hc₁.ahead h₂
  refine (gives_expect hc₂.here _ _).bind fun finish d h hfinish => gives_pure ?_
  have hle := hle₂.trans (hc₂.ahead h).2.1
  refine ⟨(hstart.mono hc.lower hle).merge (hfinish.mono hc₂.lower (le_refl _)),
    Node.nested_iff.mpr ⟨nofun, fun m hm => ?_⟩⟩
  obtain ⟨s, hs, rfl⟩ := List.mem_map.mp hm
  exact ⟨(hss s hs).toLies.within_merge (hstart.first_le hc₁) hc₂ hfinish, (hss s hs).nested⟩

private theorem gives_function (hc : c.Past p) (sort : String) :
    (body go (function sort)).Gives c (Lying p (function sort)) := by
  refine (gives_name hc.here _).bind fun x c₁ h₁ hx => ?_
  obtain ⟨hc₁, -⟩ := hc.ahead h₁
  refine (gives_parameterList hc₁.here _).bind fun ps c₂ h₂ hps => gives_ask_bind ?_
  obtain ⟨hc₂, hle₂, -⟩ := hc₁.ahead h₂
  split
  · refine (hgo block hc₂.here trivial).bind fun b d h hb => gives_pure ?_
    obtain ⟨b, span⟩ := b
    have hle := hle₂.trans (hc₂.ahead h).2.1
    have hspan : Lies c₂.span.first d span := hb.toLies
    refine ⟨(hx.mono hc.lower hle).merge (hspan.mono hc₂.lower (le_refl _)),
      Node.nested_iff.mpr ⟨?_, fun m hm => ?_⟩⟩
    · refine List.forall_mem_cons.mpr ⟨Span.within_merge_left _ _,
        List.forall_mem_map.mpr fun y hy => ?_⟩
      exact (hps y hy).within_merge (hx.first_le hc₁) hc₂ hspan
    · obtain ⟨hin, hn⟩ := (Node.nested_iff.mp hb.nested).2 m hm
      exact ⟨hin.trans (Span.within_merge_right _ _), hn⟩
  · exact (gives_any _ _).bind fun _ _ _ _ => gives_fail

private theorem gives_methods (hc : c.Past p) : (body go methods).Gives c (Lying p methods) := by
  refine gives_ask_bind ?_
  split
  · exact gives_pure nofun
  · refine (hgo (function "method") hc trivial).bind fun f c₁ h₁ (hf : Stands p c₁ (.function f)) =>
      ?_
    obtain ⟨hc₁, -⟩ := hc.ahead h₁
    refine (hgo methods hc₁ trivial).bind fun fs d h hfs => gives_pure ?_
    exact List.forall_mem_cons.mpr ⟨hf.mono (le_refl _) (hc₁.ahead h).2.1, hfs⟩

private theorem gives_classDecl (hc : c.Past p) (hrest : c.rest ≠ []) :
    (body go classDecl).Gives c (Lying p classDecl) := by
  refine (gives_advance hc.here hrest).bind fun start c₁ h₁ ⟨_, hstart, _⟩ => ?_
  obtain ⟨hc₁, -⟩ := hc.ahead h₁
  refine (gives_name hc₁.here _).bind fun x c₂ h₂ hx => ?_
  obtain ⟨hc₂, hle₂, -⟩ := hc₁.here.ahead h₂
  refine (gives_superclass hc₂).bind fun q c₃ h₃ hq => ?_
  obtain ⟨hc₃, hle₃, -⟩ := hc₂.ahead h₃
  refine (gives_any _ _).bind fun _ c₄ h₄ _ => ?_
  obtain ⟨hc₄, hle₄, -⟩ := hc₃.ahead h₄
  refine (hgo methods hc₄ trivial).bind fun fs c₅ h₅ hfs => ?_
  obtain ⟨hc₅, hle₅, -⟩ := hc₄.ahead h₅
  refine (gives_expect hc₅.here _ _).bind fun finish d h hfinish => gives_pure ?_
  have hle₃₅ := hle₄.trans hle₅
  have hle := hle₂.trans (hle₃.trans (hle₃₅.trans (hc₅.ahead h).2.1))
  have hin : ∀ {t : Span}, Lies c₁.span.first c₅ t → t.Within (start.merge finish) := fun ht =>
    ht.within_merge (hstart.first_le hc₁) hc₅ hfinish
  refine ⟨(hstart.mono hc.lower hle).merge (hfinish.mono (hc₁.lower.trans hc₅.lower) (le_refl _)),
    Node.nested_iff.mpr ⟨?_, fun m hm => ?_⟩⟩
  · exact List.forall_mem_singleton.mpr (hin (hx.mono (le_refl _) (hle₃.trans hle₃₅)))
  · obtain hm | hm := List.mem_append.mp hm
    · obtain ⟨q', hq', rfl⟩ := List.mem_map.mp hm
      have h' := (hq q' (Option.mem_toList.mp hq')).mono (le_refl _) hle₃₅
      exact ⟨hin h'.toLies, h'.nested⟩
    · obtain ⟨f, hf, rfl⟩ := List.mem_map.mp hm
      exact ⟨hin (hfs f hf).toLies, (hfs f hf).nested⟩

private theorem gives_statement (hc : c.Past p) :
    (body go statement).Gives c (Lying p statement) := by
  refine gives_ask_bind ?_
  generalize hk : c.kind = k
  have hrest : k.isEof = false → c.rest ≠ [] := fun h => rest_ne_nil_of_kind (hk ▸ h)
  split
  · exact gives_printStmt hc (hrest rfl)
  · exact hgo ifStmt hc (hrest rfl)
  · exact hgo whileStmt hc (hrest rfl)
  · exact hgo forStmt hc (hrest rfl)
  · exact gives_returnStmt hc (hrest rfl)
  · exact (hgo block hc trivial).bind fun b d _ hb => gives_pure hb
  · exact gives_expressionStmt hc

private theorem gives_ifStmt (hc : c.Past p) (hrest : c.rest ≠ []) :
    (body go ifStmt).Gives c (Lying p ifStmt) := by
  refine (gives_advance hc.here hrest).bind fun start c₁ h₁ ⟨_, hstart, hprevious⟩ => ?_
  obtain ⟨hc₁, -⟩ := hc.ahead h₁
  refine (gives_any _ _).bind fun _ c₂ h₂ _ => ?_
  obtain ⟨hc₂, -⟩ := hc₁.here.ahead h₂
  refine (gives_expression hc₂).bind fun e c₃ h₃ (he : Stands c₁.span.first c₃ (.expr e)) => ?_
  obtain ⟨hc₃, -⟩ := hc₂.ahead h₃
  refine (gives_any _ _).bind fun _ c₄ h₄ _ => ?_
  obtain ⟨hc₄, hle₄, -⟩ := hc₃.ahead h₄
  refine (hgo statement hc₄ trivial).bind
    fun yes c₅ h₅ (hyes : Stands c₁.span.first c₅ (.stmt yes)) => ?_
  obtain ⟨hc₅, hle₅, -⟩ := hc₄.ahead h₅
  refine (gives_any (eatKeyword .else) c₅).bind fun b c₆ h₆ _ => ?_
  obtain ⟨hc₆, hle₆, -⟩ := hc₅.ahead h₆
  have hend : ∀ {d : Cursor} {no : Option Stmt}, c₆.Ahead d →
      (∀ s ∈ no, Stands c₁.span.first d (.stmt s)) →
      (ifEnd start e yes no).Gives d (Lying p ifStmt) := by
    intro d no hd hno
    have hle := (hc₆.ahead hd).2.1
    obtain ⟨-, hle₁, hfirst⟩ := hc₁.ahead (h₂.trans (h₃.trans (h₄.trans (h₅.trans (h₆.trans hd)))))
    have hfirst₁ : p ≤ c₁.previous.first := by
      rw [hprevious]
      exact hc.lower.trans hstart.lower
    exact gives_ifEnd (hstart.mono hc.lower hle₁) (hfirst hfirst₁) (hstart.first_le hc₁)
      (he.mono (le_refl _) (hle₄.trans (hle₅.trans (hle₆.trans hle))))
        (hyes.mono (le_refl _) (hle₆.trans hle)) hno
  split
  · refine Gives.bind (Gives.map ((hgo statement hc₆ trivial).imp fun s d hs => ?_) :
      Gives _ c₆ fun s d =>
        ∀ s' ∈ s, Stands c₁.span.first d (.stmt s')) fun no d hd hno => hend hd hno
    rintro _ ⟨⟩
    exact hs
  · exact hend (.refl _) nofun

private theorem gives_whileStmt (hc : c.Past p) (hrest : c.rest ≠ []) :
    (body go whileStmt).Gives c (Lying p whileStmt) := by
  refine (gives_advance hc.here hrest).bind fun start c₁ h₁ ⟨_, hstart, hprevious⟩ => ?_
  obtain ⟨hc₁, -⟩ := hc.ahead h₁
  refine (gives_any _ _).bind fun _ c₂ h₂ _ => ?_
  obtain ⟨hc₂, -⟩ := hc₁.here.ahead h₂
  refine (gives_expression hc₂).bind fun e c₃ h₃ (he : Stands c₁.span.first c₃ (.expr e)) => ?_
  obtain ⟨hc₃, -⟩ := hc₂.ahead h₃
  refine (gives_any _ _).bind fun _ c₄ h₄ _ => ?_
  obtain ⟨hc₄, hle₄, -⟩ := hc₃.ahead h₄
  refine (hgo statement hc₄ trivial).bind fun s d h₅ (hs : Stands c₁.span.first d (.stmt s)) => ?_
  have hle₅ := (hc₄.ahead h₅).2.1
  obtain ⟨-, hle₁, hfirst⟩ := hc₁.ahead (h₂.trans (h₃.trans (h₄.trans h₅)))
  have hfirst₁ : p ≤ c₁.previous.first := by
    rw [hprevious]
    exact hc.lower.trans hstart.lower
  refine gives_ask_bind (gives_pure ⟨(hstart.mono hc.lower hle₁).merge_previous (hfirst hfirst₁),
    Node.nested_iff.mpr ⟨nofun, ?_⟩⟩)
  have he' := he.mono (le_refl _) (hle₄.trans hle₅)
  exact List.forall_mem_cons.mpr ⟨⟨he'.within_previous (hstart.first_le hc₁), he.nested⟩,
    List.forall_mem_singleton.mpr ⟨hs.within_previous (hstart.first_le hc₁), hs.nested⟩⟩

private theorem gives_forStmt (hc : c.Past p) (hrest : c.rest ≠ []) :
    (body go forStmt).Gives c (Lying p forStmt) := by
  refine (gives_advance hc.here hrest).bind fun start c₁ h₁ ⟨_, hstart, hprevious⟩ => ?_
  obtain ⟨hc₁, -⟩ := hc.ahead h₁
  refine (gives_any _ _).bind fun _ c₂ h₂ _ => ?_
  obtain ⟨hc₂, -⟩ := hc₁.here.ahead h₂
  refine (gives_forInitial hc₂).bind fun i c₃ h₃ hi => ?_
  obtain ⟨hc₃, -⟩ := hc₂.ahead h₃
  refine (gives_expressionUnless hc₃ _).bind fun condition c₄ h₄ hcondition => ?_
  obtain ⟨hc₄, hle₄, -⟩ := hc₃.ahead h₄
  refine (gives_expect hc₄ _ _).bind fun t c₅ h₅ ht => ?_
  obtain ⟨hc₅, hle₅, -⟩ := hc₄.ahead h₅
  refine (gives_expressionUnless hc₅ _).bind fun increment c₆ h₆ hincrement => ?_
  obtain ⟨hc₆, hle₆, -⟩ := hc₅.ahead h₆
  refine (gives_any _ _).bind fun _ c₇ h₇ _ => ?_
  obtain ⟨hc₇, hle₇, -⟩ := hc₆.ahead h₇
  refine (hgo statement hc₇ trivial).bind fun s d h₈ (hs : Stands c₁.span.first d (.stmt s)) => ?_
  have hle₈ := hle₇.trans (hc₇.ahead h₈).2.1
  obtain ⟨-, hle₁, hfirst⟩ :=
    hc₁.ahead (h₂.trans (h₃.trans (h₄.trans (h₅.trans (h₆.trans (h₇.trans h₈))))))
  have hfirst₁ : p ≤ c₁.previous.first := by
    rw [hprevious]
    exact hc.lower.trans hstart.lower
  exact gives_forEnd (hstart.mono hc.lower hle₁) (hfirst hfirst₁) (hstart.first_le hc₁)
    (fun s hs => (hi s hs).mono (le_refl _) (hle₄.trans (hle₅.trans (hle₆.trans hle₈))))
    (fun e he => (hcondition e he).mono (le_refl _) (hle₅.trans (hle₆.trans hle₈)))
    (ht.mono (le_refl _) (hle₆.trans hle₈)) (fun e he => (hincrement e he).mono (le_refl _) hle₈) hs

/-- Whatever a reader reads lies where it was read, and its spans nest, if this is so for the
readers that it calls. -/
theorem gives_body (r : Reading α) (hc : c.Past p) (hr : r.Ready p c) :
    (body go r).Gives c (r.Lying p) := by
  cases r with
  | assignment => exact gives_assignment go hgo hc
  | level l => exact gives_level go hgo hc l
  | moreOperands l e => exact gives_moreOperands go hgo hc (l := l) hr
  | operand l => exact gives_operand go hgo hc l
  | unary => exact gives_unary go hgo hc
  | calls e => exact gives_calls go hgo hc hr
  | arguments count => exact gives_arguments go hgo hc count
  | primary => exact gives_primary go hgo hc
  | parameters count => exact gives_parameters go hgo hc count
  | declaration => exact gives_declaration go hgo hc
  | declarations => exact gives_declarations go hgo hc
  | block => exact gives_block go hgo hc
  | function sort => exact gives_function go hgo hc sort
  | methods => exact gives_methods go hgo hc
  | classDecl => exact gives_classDecl go hgo hc hr
  | statement => exact gives_statement go hgo hc
  | ifStmt => exact gives_ifStmt go hgo hc hr
  | whileStmt => exact gives_whileStmt go hgo hc hr
  | forStmt => exact gives_forStmt go hgo hc hr
  | topLevel => exact hr.elim
  | expect s place => exact gives_expect hc s place
  | name role => exact gives_name hc role
  | expression => exact gives_expression hc
  | expressionUnless s => exact gives_expressionUnless hc s
  | parameterList sort => exact gives_parameterList hc sort
  | varDecl => exact gives_varDecl hc hr
  | printStmt => exact gives_printStmt hc hr
  | returnStmt => exact gives_returnStmt hc hr
  | expressionStmt => exact gives_expressionStmt hc
  | forInitial => exact gives_forInitial hc
  | superclass => exact gives_superclass hc

end

private theorem gives_reader (n : Nat) (r : Reading α) (hc : c.Past p) (hr : r.Ready p c) :
    (r.reader n).Gives c (r.Lying p) := by
  induction n generalizing α c p with
  | zero =>
    have hnone : ∀ {β : Type} (s : Reading β) {c : Cursor} {p : Position}, c.Past p → s.Ready p c →
        (fail : Reader β).Gives c (s.Lying p) := fun _ _ _ _ _ => gives_fail
    cases r
    case expect | name | expression | expressionUnless | parameterList | varDecl | printStmt | returnStmt |
        expressionStmt | forInitial | superclass =>
      exact gives_body (fun _ => fail) hnone _ hc hr
    all_goals exact gives_fail
  | succ n ih =>
    have hgo : ∀ {β : Type} (s : Reading β) {c : Cursor} {p : Position}, c.Past p → s.Ready p c →
        (s.reader n).Gives c (s.Lying p) := fun s _ _ hc hs => ih s hc hs
    rw [reader_succ]
    exact gives_body (reader n) hgo r hc hr

/-- The declarations at the outermost level. -/
theorem gives_topLevel (n : Nat) (hc : c.Past p) :
    (Reader.topLevel n).Gives c (Lying p topLevel) := by
  induction n generalizing c with
  | zero => exact gives_fail
  | succ n ih =>
    refine gives_ask_bind ?_
    split
    · exact gives_pure nofun
    · have hdeclaration : ∀ m, (Reader.declaration m).Gives c (Lying p declaration) := fun m =>
        gives_reader m declaration hc trivial
      exact gives_more (r := nextDeclaration) hc ((hdeclaration _).congr rfl) ih

end Reading

/-! ### Programs -/

namespace Cursor

/-- A cursor on tokens that stand one after the other, with the mark at the end after them. -/
theorem past_ofTokens {ts : List Token} {q : Position} {i : Nat} (h : Token.InOrder .start ts)
    (hlast : ts.getLast? = some ⟨.eof, .point q⟩) :
    (ofTokens ts i).Past (ofTokens ts i).span.first := by
  obtain ⟨more, hmarked⟩ := marked_eq ts i
  have heof : ts.getLast?.any (·.kind.isEof) = true := by rw [hlast]; rfl
  rw [Token.marked, if_pos heof] at hmarked
  obtain ⟨us, hus⟩ : ∃ us, us =
      (ofTokens ts i).rest ++ [(⟨.eof, (ofTokens ts i).finish⟩ : Token)] := ⟨_, rfl⟩
  have hmore : us ++ more = ts := by
    rw [hus, ← List.append_cons]
    exact hmarked.symm
  have hsub := (List.prefix_append us more).sublist
  rw [hmore] at hsub
  have hspans : (ofTokens ts i).spans = us.map Token.span := by
    rw [hus, spans, List.map_append]
    rfl
  have hmem : ∀ s ∈ (ofTokens ts i).spans, ∃ t ∈ ts, t.span = s := by
    rw [hspans]
    intro s hs
    obtain ⟨t, ht, rfl⟩ := List.mem_map.mp hs
    exact ⟨t, hsub.subset ht, rfl⟩
  obtain ⟨l, hl⟩ := (ofTokens ts i).spans_eq_cons
  refine ⟨le_refl _, ?_, ?_, fun s hs => ?_⟩
  · obtain ⟨t, ht, hspan⟩ := hmem _ (hl ▸ List.mem_cons_self)
    exact hspan ▸ h.lower t ht
  · rw [hspans, List.pairwise_map]
    exact h.ordered.sublist hsub
  · obtain ⟨t, ht, rfl⟩ := hmem s hs
    exact h.proper t ht

end Cursor

namespace Parsed

/-- In the program that is read from a text, be there errors or not, each expression and each
statement spans all that stands in it, and the program spans its statements. -/
theorem spans_nest (text : String) (firstId : Nat) :
    let program := (ofTokens (Lexed.ofText text).tokens firstId).program
    ∀ s ∈ program.body, s.span.Within program.span ∧ (Node.stmt s).Nested := by
  intro program s hs
  obtain ⟨q, hlast⟩ := Lexed.getLast?_ofPieces .start (Piece.all text.toList)
  have hstart := Cursor.past_ofTokens (i := firstId) (Lexed.inOrder_ofText text) hlast
  generalize hc : Cursor.ofTokens (Lexed.ofText text).tokens firstId = c at hstart
  obtain ⟨hfinish, -⟩ :=
    hstart.ahead (Reader.Onward.ahead (r := Reader.topLevel (c.rest.length + 1)) c)
  have hbody : s ∈ (Reader.topLevel (c.rest.length + 1) c).1.getD [] := by
    rw [← hc]
    exact hs
  have hspan : program.span = c.span.merge (Reader.topLevel (c.rest.length + 1) c).2.span := by
    rw [← hc]
    rfl
  cases hread : (Reader.topLevel (c.rest.length + 1) c).1 with
  | none =>
    rw [hread] at hbody
    cases hbody
  | some body =>
    rw [hread] at hbody
    have h := Reading.gives_topLevel _ hstart body hread s hbody
    rw [hspan]
    exact ⟨Span.within_merge h.lower
      (h.upper.trans (hfinish.previous.trans hfinish.span_proper)), h.nested⟩

end Parsed

end Lox
