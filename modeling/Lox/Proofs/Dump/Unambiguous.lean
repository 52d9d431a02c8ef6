import Lox.Proofs.Reading.Drawn
/-!
# Dumps are unambiguous

Programs that are read from texts are shown alike just when they differ in nothing but spans and
numbers of expressions, provided that their number literals are finite.
-/

namespace Lox

open Form Likeness

/-! ### Number literals -/

/-- An expression among the sights is the literal. -/
def Literal.Among (v : Literal) (l : List Sight) : Prop := ∃ s, Sight.expr (.literal s v) ∈ l

/-- All number literals of the program are finite. -/
def Program.Finite (p : Program) : Prop :=
  ∀ x, (Literal.number x).Among (Stmt.sightsAll p.body) → Number.Finite x

theorem Literal.Among.subset {v : Literal} {l m : List Sight} (h : v.Among l)
    (hl : ∀ w ∈ l, w ∈ m) : v.Among m := by
  obtain ⟨s, hs⟩ := h
  exact ⟨s, hl _ hs⟩

theorem UnaryOp.ne_token (op : UnaryOp) (x : Float) : .number x ≠ op.token := by cases op <;> nofun

theorem InfixOp.ne_token (op : InfixOp) (x : Float) : .number x ≠ op.token := by
  rcases op with (_ | _) | (_ | _ | _ | _ | _ | _ | _ | _ | _ | _) <;> nofun

section

variable {x : Float}

mutual

theorem Expr.among_of_word :
    (e : Expr) → .number x ∈ e.form.words → (Literal.number x).Among e.sights
  | .literal s v, h => by
    obtain rfl : .number x = v := Literal.token_inj (List.mem_singleton.mp h)
    exact ⟨s, by simp [sights, nodes]⟩
  | .grouping _ e, h =>
    (e.among_of_word (by simpa [form] using h)).subset (by simp +contextual [sights, nodes])
  | .unary _ op _ e, h =>
    (e.among_of_word (by simpa [form, op.ne_token] using h)).subset
      (by simp +contextual [sights, nodes])
  | .binary _ l op _ r, h => by
    obtain h | h : .number x ∈ l.form.words ∨ .number x ∈ r.form.words := by
      simpa [form, InfixOp.ne_token] using h
    · exact (l.among_of_word h).subset (by simp +contextual [sights, nodes])
    · exact (r.among_of_word h).subset (by simp +contextual [sights, nodes])
  | .logical _ l op r, h => by
    obtain h | h : .number x ∈ l.form.words ∨ .number x ∈ r.form.words := by
      simpa [form, InfixOp.ne_token] using h
    · exact (l.among_of_word h).subset (by simp +contextual [sights, nodes])
    · exact (r.among_of_word h).subset (by simp +contextual [sights, nodes])
  | .var _ _, h => by simp [form, words, Ident.token] at h
  | .assign _ _ e, h =>
    (e.among_of_word (by simpa [form, words, Ident.token] using h)).subset
      (by simp +contextual [sights, nodes])
  | .call _ f _ es, h => by
    obtain h | h : .number x ∈ f.form.words ∨ ∃ m ∈ Expr.forms es, .number x ∈ m.words := by
      simpa [form] using h
    · exact (f.among_of_word h).subset (by simp +contextual [sights, nodes])
    · exact (Expr.among_of_words es h).subset (by simp +contextual [sights, sightsAll, nodes])
  | .get _ e _, h =>
    (e.among_of_word (by simpa [form, words, Ident.token] using h)).subset
      (by simp +contextual [sights, nodes])
  | .set _ e _ v, h => by
    obtain h | h : .number x ∈ e.form.words ∨ .number x ∈ v.form.words := by
      simpa [form, words, Ident.token] using h
    · exact (e.among_of_word h).subset (by simp +contextual [sights, nodes])
    · exact (v.among_of_word h).subset (by simp +contextual [sights, nodes])
  | .this _, h => by simp [form, words] at h
  | .super _ _, h => by simp [form, words, Ident.token] at h

theorem Expr.among_of_words : (es : List Expr) → (∃ m ∈ Expr.forms es, .number x ∈ m.words) →
    (Literal.number x).Among (Expr.sightsAll es)
  | e :: es, h => by
    obtain h | h : .number x ∈ e.form.words ∨ ∃ m ∈ Expr.forms es, .number x ∈ m.words := by
      simpa [forms] using h
    · exact (e.among_of_word h).subset (by simp +contextual)
    · exact (Expr.among_of_words es h).subset (by simp +contextual)

end

mutual

theorem Stmt.among_of_word :
    (s : Stmt) → .number x ∈ s.form.words → (Literal.number x).Among s.sights
  | .expr _ e, h =>
    (e.among_of_word (by simpa [Stmt.form] using h)).subset (by simp +contextual [Stmt.sights])
  | .print _ e, h =>
    (e.among_of_word (by simpa [Stmt.form] using h)).subset (by simp +contextual [Stmt.sights])
  | .var _ _ none, h => by simp [Stmt.form, words, Ident.token] at h
  | .var _ _ (some e), h =>
    (e.among_of_word (by simpa [Stmt.form, words, Ident.token] using h)).subset
      (by simp +contextual [Stmt.sights])
  | .block _ b, h =>
    (Stmt.among_of_words b (by simpa [Stmt.form] using h)).subset
      (by simp +contextual [Stmt.sights])
  | .ifElse _ c s none, h => by
    obtain h | h : .number x ∈ c.form.words ∨ .number x ∈ s.form.words := by
      simpa [Stmt.form] using h
    · exact (c.among_of_word h).subset (by simp +contextual [Stmt.sights])
    · exact (s.among_of_word h).subset (by simp +contextual [Stmt.sights])
  | .ifElse _ c s (some n), h => by
    obtain h | h | h : .number x ∈ c.form.words ∨ .number x ∈ s.form.words ∨
        .number x ∈ n.form.words := by
      simpa [Stmt.form] using h
    · exact (c.among_of_word h).subset (by simp +contextual [Stmt.sights])
    · exact (s.among_of_word h).subset (by simp +contextual [Stmt.sights])
    · exact (n.among_of_word h).subset (by simp +contextual [Stmt.sights])
  | .whileLoop _ c s, h => by
    obtain h | h : .number x ∈ c.form.words ∨ .number x ∈ s.form.words := by
      simpa [Stmt.form] using h
    · exact (c.among_of_word h).subset (by simp +contextual [Stmt.sights])
    · exact (s.among_of_word h).subset (by simp +contextual [Stmt.sights])
  | .function d, h =>
    (d.among_of_word (.keyword .fun) nofun h).subset (by simp +contextual [Stmt.sights])
  | .classDecl _ _ p ms, h => by
    have hms : ∃ m ∈ FunctionDecl.forms ms, .number x ∈ m.words := by
      cases p <;> simpa [Stmt.form, Superclass.forms, words, Ident.token] using h
    refine (FunctionDecl.among_of_words ms hms).subset ?_
    cases p <;> simp +contextual [Stmt.sights]
  | .returning _ _ none, h => by simp [Stmt.form] at h
  | .returning _ _ (some e), h =>
    (e.among_of_word (by simpa [Stmt.form] using h)).subset (by simp +contextual [Stmt.sights])

theorem Stmt.among_of_words : (ss : List Stmt) → (∃ m ∈ Stmt.forms ss, .number x ∈ m.words) →
    (Literal.number x).Among (Stmt.sightsAll ss)
  | s :: ss, h => by
    obtain h | h : .number x ∈ s.form.words ∨ ∃ m ∈ Stmt.forms ss, .number x ∈ m.words := by
      simpa [Stmt.forms] using h
    · exact (s.among_of_word h).subset (by simp +contextual [Stmt.sightsAll])
    · exact (Stmt.among_of_words ss h).subset (by simp +contextual [Stmt.sightsAll])

theorem FunctionDecl.among_of_word (first : TokenKind) (hfirst : .number x ≠ first) :
    (d : FunctionDecl) →
    .number x ∈ (d.form first).words → (Literal.number x).Among d.sights
  | .mk _ ps b _, h => by
    have hb : ∃ m ∈ Stmt.forms b, .number x ∈ m.words := by
      simpa [FunctionDecl.form, hfirst, words, mem_wordsAll, Ident.token] using h
    exact (Stmt.among_of_words b hb).subset (by simp +contextual [FunctionDecl.sights])

theorem FunctionDecl.among_of_words : (ds : List FunctionDecl) →
    (∃ m ∈ FunctionDecl.forms ds, .number x ∈ m.words) →
    (Literal.number x).Among (FunctionDecl.sightsAll ds)
  | d :: ds, h => by
    obtain h | h : .number x ∈ (d.form (.identifier "method")).words ∨
      ∃ m ∈ FunctionDecl.forms ds, .number x ∈ m.words := by simpa [FunctionDecl.forms] using h
    · exact (d.among_of_word (.identifier "method") nofun h).subset
        (by simp +contextual [FunctionDecl.sightsAll])
    · exact (FunctionDecl.among_of_words ds h).subset (by simp +contextual [FunctionDecl.sightsAll])

end

end

/-! ### Programs -/

namespace Program

variable {p q : Program}

theorem dump_eq (p : Program) : p.dump = "\n".intercalate ((Stmt.forms p.body).map Form.text) := by
  rw [dump, Stmt.dumpAll_eq, textAll_eq_map]

/-- The words of a program with finite literals can be told from each other. -/
theorem readable_of_finite (hp : ∀ s ∈ p.body, s.form.Drawn) (hfinite : p.Finite) :
    ∀ m ∈ Stmt.forms p.body, m.Readable := by
  intro m hm k hk
  refine (Stmt.drawn_forms.mpr hp m hm k hk).word ?_
  rintro x rfl
  exact hfinite x (Stmt.among_of_words p.body ⟨m, hm, hk⟩)

end Program

namespace Parsed

/-- Programs with finite number literals that are read from texts, be there errors or not, are shown
alike just when they differ in nothing but spans and numbers of expressions. -/
theorem dump_eq_iff_like (s t : String) (i j : Nat)
    (hs : (ofTokens (Lexed.ofText s).tokens i).program.Finite)
    (ht : (ofTokens (Lexed.ofText t).tokens j).program.Finite) :
    (ofTokens (Lexed.ofText s).tokens i).program.dump =
      (ofTokens (Lexed.ofText t).tokens j).program.dump ↔
      List.Forall₂ (Stmt.Like .any) (ofTokens (Lexed.ofText s).tokens i).program.body
        (ofTokens (Lexed.ofText t).tokens j).program.body := by
  rw [Program.dump_eq, Program.dump_eq]
  refine ⟨fun h => ?_, fun h => ?_⟩
  · have hs' := Program.readable_of_finite (drawn_ofTokens s i) hs
    have ht' := Program.readable_of_finite (drawn_ofTokens t j) ht
    exact Stmt.forall₂_like_of_forms _ _ (lines_inj hs' ht' h)
  · rw [Stmt.forms_eq_of_forall₂_like _ _ h]

def wholeText : String := "print \"(1)\"+1;"

def fractionText : String := "print // one\n \"(1)\" + 1.0 ;"

/-- One program in two spellings, with a string that looks like a number in parentheses. -/
theorem dump_eq_iff_like_fraction :
    ((ofTokens (Lexed.ofText wholeText).tokens 0).program.Finite ∧
      (ofTokens (Lexed.ofText fractionText).tokens 7).program.Finite) ∧
    (ofTokens (Lexed.ofText wholeText).tokens 0).program.dump = "(print (+ \"(1)\" 1))" ∧
    List.Forall₂ (Stmt.Like .any) (ofTokens (Lexed.ofText wholeText).tokens 0).program.body
      (ofTokens (Lexed.ofText fractionText).tokens 7).program.body := by
  have hfinite : ∀ (text : String) (i : Nat),
      (∃ t r s u v x, (ofTokens (Lexed.ofText text).tokens i).program.body =
        [.print t (.binary r (.literal s (.string "(1)")) .add u (.literal v (.number x)))] ∧
        Number.Finite x) →
      (ofTokens (Lexed.ofText text).tokens i).program.Finite := by
    rintro text i ⟨t, r, s, u, v, x, hbody, hx⟩ y ⟨w, hy⟩
    rw [hbody] at hy
    obtain ⟨-, rfl⟩ : w = v ∧ y = x := by
      simpa [Stmt.sightsAll, Stmt.sights, Expr.sights, Expr.nodes] using hy
    exact hx
  have hone : Number.Finite 1 := by
    unfold Number.Finite
    decide +kernel
  have hwhole := hfinite wholeText 0 ⟨_, _, _, _, _, 1, by rfl, hone⟩
  have hfraction := hfinite fractionText 7 ⟨_, _, _, _, _, 1, by rfl, hone⟩
  have hdump : (ofTokens (Lexed.ofText wholeText).tokens 0).program.dump =
      "(print (+ \"(1)\" 1))" := by
    decide +kernel
  have hsame : (ofTokens (Lexed.ofText wholeText).tokens 0).program.dump =
      (ofTokens (Lexed.ofText fractionText).tokens 7).program.dump := by decide +kernel
  exact ⟨⟨hwhole, hfraction⟩, hdump,
    (dump_eq_iff_like wholeText fractionText 0 7 hwhole hfraction).mp hsame⟩

end Parsed

end Lox
