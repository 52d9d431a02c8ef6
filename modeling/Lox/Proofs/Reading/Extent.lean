import Lox.Proofs.Reading.Ahead
import Lox.Proofs.Token.Order
/-!
# How far a tree extends

The spans in a program, and when one lies within another. A cursor in tokens that stand one after
the other has all that was read before it end where the last token read ends, and all that is read
after it starts where the next token starts. So what a reader puts together lies between the two.
-/

namespace Lox

/-! ### Spans in spans -/

namespace Span

variable {a b s t : Span} {p : Position}

/-- The span `a` starts and ends inside of `b`. -/
structure Within (a b : Span) : Prop where
  first : b.first ≤ a.first
  last : a.last ≤ b.last

theorem Within.refl (a : Span) : a.Within a := ⟨le_refl _, le_refl _⟩

theorem Within.trans (h : a.Within b) (h' : b.Within t) : a.Within t :=
  ⟨h'.first.trans h.first, h.last.trans h'.last⟩

/-- What starts no sooner than `a` and ends no later than `b`. -/
theorem within_merge (hf : a.first ≤ t.first) (hl : t.last ≤ b.last) : t.Within (a.merge b) :=
  ⟨(min_le_left _ _).trans hf, hl.trans (le_max_right _ _)⟩

theorem within_merge_left (a b : Span) : a.Within (a.merge b) := ⟨min_le_left _ _, le_max_left _ _⟩

theorem within_merge_right (a b : Span) : b.Within (a.merge b) :=
  ⟨min_le_right _ _, le_max_right _ _⟩

theorem le_first_merge (ha : p ≤ a.first) (hb : p ≤ b.first) : p ≤ (a.merge b).first := le_min ha hb

theorem last_merge_le (ha : a.last ≤ p) (hb : b.last ≤ p) : (a.merge b).last ≤ p := max_le ha hb

end Span

/-! ### The nodes of a program -/

/-- A place in a tree that has a span and other places in it. -/
inductive Node where
  | expr (e : Expr)
  | stmt (s : Stmt)
  | function (d : FunctionDecl)

namespace Node

@[simp] def span : Node → Span
  | expr e => e.span
  | stmt s => s.span
  | function d => d.span

/-- The expressions, statements and functions that a node is made of. -/
def children : Node → List Node
  | expr (.literal _ _) | expr (.var _ _) | expr (.this _) | expr (.super _ _) => []
  | expr (.grouping _ e) | expr (.unary _ _ _ e) | expr (.assign _ _ e)
  | expr (.get _ e _) => [expr e]
  | expr (.binary _ l _ _ r) | expr (.logical _ l _ r) => [expr l, expr r]
  | expr (.call _ f _ es) => expr f :: es.map expr
  | expr (.set _ e _ v) => [expr e, expr v]
  | stmt (.expr _ e) | stmt (.print _ e) => [expr e]
  | stmt (.var _ _ e) | stmt (.returning _ _ e) => e.toList.map expr
  | stmt (.block _ b) => b.map stmt
  | stmt (.ifElse _ c s t) => expr c :: stmt s :: t.toList.map stmt
  | stmt (.whileLoop _ c s) => [expr c, stmt s]
  | stmt (.function d) => [function d]
  | stmt (.classDecl _ _ p ms) => (p.toList.map fun q => expr q.node) ++ ms.map function
  | function (.mk _ _ b _) => b.map stmt

/-- The spans of the names, the parameters, the operator, the keyword and the closing
parenthesis of a node. -/
def marks : Node → List Span
  | expr (.unary _ _ t _) | expr (.binary _ _ _ t _) | expr (.call _ _ t _)
  | stmt (.returning _ t _) => [t]
  | expr (.var _ x) | expr (.super _ x) | expr (.assign _ x _) | expr (.get _ _ x)
  | expr (.set _ _ x _)
  | stmt (.var _ x _) | stmt (.classDecl _ x _ _) => [x.span]
  | function (.mk x ps _ _) => x.span :: ps.map Ident.span
  | _ => []

/-- A node spans all that stands in it, and so does each of its parts. -/
inductive Nested : Node → Prop
  | mk {n : Node} (marks : ∀ t ∈ n.marks, t.Within n.span) (children : ∀ m ∈ n.children,
      m.span.Within n.span)
    (nested : ∀ m ∈ n.children, m.Nested) : n.Nested

theorem nested_iff {n : Node} :
    n.Nested ↔
    (∀ t ∈ n.marks, t.Within n.span) ∧ ∀ m ∈ n.children, m.span.Within n.span ∧ m.Nested :=
  ⟨fun ⟨ht, hm, hn⟩ => ⟨ht, fun m h => ⟨hm m h, hn m h⟩⟩,
    fun ⟨ht, hm⟩ => ⟨ht, fun m h => (hm m h).1, fun m h => (hm m h).2⟩⟩

end Node

/-! ### A cursor among ordered tokens -/

namespace Cursor

/-- The spans of the tokens not read yet and of the mark at the end. -/
def spans (c : Cursor) : List Span := c.rest.map Token.span ++ [c.finish]

/-- The tokens before and after the cursor stand one after the other, those after it no
sooner than at `p`. -/
structure Past (p : Position) (c : Cursor) : Prop where
  lower : p ≤ c.span.first
  previous : c.previous.last ≤ c.span.first
  ordered : c.spans.Pairwise fun s t => s.last ≤ t.first
  proper : ∀ s ∈ c.spans, s.first ≤ s.last

variable {c d : Cursor} {p q : Position}

theorem spans_eq_cons (c : Cursor) : ∃ l, c.spans = c.span :: l := by
  unfold spans span
  cases c.rest with
  | nil => exact ⟨[], rfl⟩
  | cons t ts => exact ⟨_, rfl⟩

namespace Past

theorem here (h : c.Past p) : c.Past c.span.first := ⟨le_refl _, h.previous, h.ordered, h.proper⟩

theorem span_proper (h : c.Past p) : c.span.first ≤ c.span.last := by
  obtain ⟨l, hl⟩ := c.spans_eq_cons
  exact h.proper _ (hl ▸ List.mem_cons_self)

/-- The next token is read. -/
theorem advance (h : c.Past p) (hc : c.rest ≠ []) :
    c.advance.Past p ∧ c.advance.previous = c.span ∧ c.span.last ≤ c.advance.span.first := by
  obtain ⟨t, ts, hr⟩ := List.exists_cons_of_ne_nil hc
  have hspan : c.span = t.span := by rw [span, hr]
  have hnext : c.advance = { c with rest := ts, previous := t.span } := by rw [Cursor.advance, hr]
  have hspans : c.spans = t.span :: c.advance.spans := by
    rw [spans, hr, hnext, spans, List.map_cons, List.cons_append]
  obtain ⟨l, hl⟩ := c.advance.spans_eq_cons
  have hordered := h.ordered
  have hproper := h.proper
  rw [hspans, List.pairwise_cons] at hordered
  rw [hspans, List.forall_mem_cons] at hproper
  have hlast : c.span.last ≤ c.advance.span.first := hspan ▸ hordered.1 _ (hl ▸ List.mem_cons_self)
  have hprevious : c.advance.previous = c.span := by rw [hnext, hspan]
  refine ⟨⟨?_, hprevious ▸ hlast, hordered.2, hproper.2⟩, hprevious, hlast⟩
  exact h.lower.trans (h.span_proper.trans hlast)

/-- Reading on leaves no token behind that is not before the cursor. -/
theorem ahead (h : c.Past p) (hd : c.Ahead d) :
    d.Past p ∧ c.previous.last ≤ d.previous.last ∧ (p ≤ c.previous.first →
      p ≤ d.previous.first) := by
  obtain ⟨ts, hts, hprevious⟩ := hd.rest
  induction ts generalizing c with
  | nil =>
    have hspans : d.spans = c.spans := by rw [spans, spans, hts, hd.finish, List.nil_append]
    have hspan : d.span = c.span := by
      obtain ⟨l, hl⟩ := c.spans_eq_cons
      obtain ⟨l', hl'⟩ := d.spans_eq_cons
      exact (List.cons.inj (hl'.symm.trans (hspans.trans hl))).1
    have hsame : d.previous = c.previous := hprevious
    rw [hsame]
    exact ⟨⟨hspan ▸ h.lower, by
      rw [hsame, hspan]; exact h.previous, hspans ▸ h.ordered, hspans ▸ h.proper⟩,
      le_refl _, id⟩
  | cons t ts ih =>
    have hc : c.rest ≠ [] := by simp [hts]
    obtain ⟨hnext, hnp, -⟩ := h.advance hc
    have hadvance : c.advance = { c with rest := ts ++ d.rest, previous := t.span } := by
      rw [Cursor.advance, hts, List.cons_append]
    have hlast : d.previous = (ts.getLast?.map Token.span).getD c.advance.previous := by
      rw [hprevious, hadvance, List.getLast?_cons]
      cases ts.getLast? <;> rfl
    have hahead : c.advance.Ahead d := by
      refine ⟨⟨ts, by rw [hadvance], hlast⟩, ?_, ?_, ?_⟩ <;> rw [hadvance]
      · exact hd.finish
      · exact hd.errors
      · exact hd.nextId
    obtain ⟨hlt, hle, hfirst⟩ := ih hnext hahead (by rw [hadvance]) hlast
    rw [hnp] at hle hfirst
    exact ⟨hlt, (h.previous.trans h.span_proper).trans hle, fun _ => hfirst h.lower⟩

end Past

end Cursor

/-! ### What readers put together -/

/-- The span `t` lies between the position `p` and the cursor `d`. -/
structure Lies (p : Position) (d : Cursor) (t : Span) : Prop where
  lower : p ≤ t.first
  proper : t.first ≤ t.last
  upper : t.last ≤ d.previous.last

/-- A node that was read between the position `p` and the cursor `d`. -/
structure Stands (p : Position) (d : Cursor) (n : Node) : Prop extends Lies p d n.span where
  nested : n.Nested

variable {p q : Position} {c d : Cursor} {a b t : Span} {n m : Node}

namespace Lies

theorem mono (h : Lies p c t) (hq : q ≤ p) (hd : c.previous.last ≤ d.previous.last) : Lies q d t :=
  ⟨hq.trans h.lower, h.proper, h.upper.trans hd⟩

/-- What was read first ends before what was read next starts. -/
theorem before (ha : Lies q c a) (hc : c.Past p) (hb : Lies c.span.first d b) : a.last ≤ b.first :=
  ha.upper.trans (hc.previous.trans hb.lower)

/-- What reaches from `a` to `b`. -/
theorem merge (ha : Lies p d a) (hb : Lies p d b) : Lies p d (a.merge b) where
  lower := Span.le_first_merge ha.lower hb.lower
  proper := (min_le_left _ _).trans (ha.proper.trans (le_max_left _ _))
  upper := Span.last_merge_le ha.upper hb.upper

/-- What was read starts before the cursor. -/
theorem first_le (ha : Lies q c a) (hc : c.Past p) : a.first ≤ c.span.first :=
  ha.proper.trans (ha.upper.trans hc.previous)

/-- What was read after `a` and before `b`. -/
theorem within_merge (ha : a.first ≤ q) (ht : Lies q c t) (hc : c.Past p)
    (hb : Lies c.span.first d b) : t.Within (a.merge b) :=
  Span.within_merge (ha.trans ht.lower) ((ht.before hc hb).trans hb.proper)

/-- What was read after `a` up to now. -/
theorem within_previous (ha : a.first ≤ q) (ht : Lies q d t) : t.Within (a.merge d.previous) :=
  Span.within_merge (ha.trans ht.lower) ht.upper

/-- What reaches up to the last token read. -/
theorem merge_previous (ha : Lies p d a) (hd : p ≤ d.previous.first) :
    Lies p d (a.merge d.previous) where
  lower := Span.le_first_merge ha.lower hd
  proper := (min_le_left _ _).trans (ha.proper.trans (le_max_left _ _))
  upper := Span.last_merge_le ha.upper (le_refl _)

end Lies

theorem Stands.mono (h : Stands p c n) (hq : q ≤ p) (hd : c.previous.last ≤ d.previous.last) :
    Stands q d n :=
  ⟨h.toLies.mono hq hd, h.nested⟩

namespace Reader

variable {α β : Type}

/-- What `r` reads from `c` on is as `Q` says. -/
def Gives (r : Reader α) (c : Cursor) (Q : α → Cursor → Prop) : Prop :=
  ∀ a, (r c).1 = some a → Q a (r c).2

variable {r : Reader α} {f : α → Reader β} {c : Cursor} {p : Position} {Q : α → Cursor → Prop}
  {R : β → Cursor → Prop}

theorem Gives.imp {Q' : α → Cursor → Prop} (h : r.Gives c Q) (hq : ∀ a d, Q a d → Q' a d) :
    r.Gives c Q' :=
  fun a ha => hq a _ (h a ha)

theorem Gives.congr {s : Reader α} (h : r.Gives c Q) (hs : s c = r c) : s.Gives c Q := by
  unfold Gives at *
  rwa [hs]

/-- What the second reader gives may depend on how far the first one got. -/
theorem Gives.bind [r.Onward] (h : r.Gives c Q) (hf : ∀ a d, c.Ahead d → Q a d → (f a).Gives d R) :
    (r >>= f).Gives c R := by
  intro b hb
  cases ha : (r c).1 with
  | none =>
    rw [bind_of_none ha] at hb
    cases hb
  | some a =>
    rw [bind_of_some ha] at hb ⊢
    exact hf a _ (Onward.ahead (r := r) c) (h a ha) b hb

theorem Gives.map [r.Onward] {g : α → β} (h : r.Gives c fun a d => R (g a) d) :
    (g <$> r).Gives c R := by
  refine Gives.congr (r := r >>= fun a => pure (g a)) (h.bind fun a d _ ha => ?_) rfl
  rintro _ ⟨⟩
  exact ha

theorem gives_pure {a : α} (h : Q a c) : (pure a : Reader α).Gives c Q := by
  rintro _ ⟨⟩
  exact h

theorem gives_fail : (fail : Reader α).Gives c Q := nofun

theorem gives_any (r : Reader α) (c : Cursor) : r.Gives c fun _ _ => True := fun _ _ => trivial

theorem gives_ask_bind {γ : Type} {g : Cursor → γ} {f : γ → Reader β} (h : (f (g c)).Gives c R) :
    (ask g >>= f).Gives c R := h

theorem gives_site (t : Span) :
    (site t).Gives c fun s d => ∃ n, s = ⟨n, t⟩ ∧ d.previous = c.previous := by
  rintro _ ⟨⟩
  exact ⟨_, rfl, rfl⟩

theorem lies_advance (hc : c.Past p) (hr : c.rest ≠ []) :
    Lies p c.advance c.span ∧ c.advance.previous = c.span := by
  obtain ⟨-, hprevious, -⟩ := hc.advance hr
  exact ⟨⟨hc.lower, hc.span_proper, by rw [hprevious]⟩, hprevious⟩

theorem gives_advance (hc : c.Past p) (hr : c.rest ≠ []) :
    advance.Gives c fun t d => t = c.span ∧ Lies p d t ∧ d.previous = t := by
  rintro _ ⟨⟩
  exact ⟨rfl, lies_advance hc hr⟩

theorem gives_expect (hc : c.Past p) (s : Symbol) (place : String) :
    (expect s place).Gives c fun t d => Lies p d t := by
  unfold Gives expect
  split
  · rename_i h
    rintro _ ⟨⟩
    exact (lies_advance hc (rest_ne_nil_of_isSymbol h)).1
  · nofun

theorem gives_name (hc : c.Past p) (role : String) :
    (name role).Gives c fun x d => Lies p d x.span := by
  unfold Gives name
  split
  · rename_i x hx
    rintro _ ⟨⟩
    exact (lies_advance hc (rest_ne_nil_of_kind (by rw [hx]; rfl))).1
  · rintro _ ⟨⟩

end Reader

end Lox
