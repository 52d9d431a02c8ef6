import Lox.Proofs.Grammar.Completeness
import Lox.Proofs.Grammar.Derivations
/-!
# What the parser accepts

A program is read from its tokens without an error exactly when they derive from the grammar, and
then the trees that are read are written as all the tokens, one declaration after another. A
canonical program is read back from its own tokens.
-/

namespace Lox

/-! ### The mark at the end is no word of the grammar -/

theorem Phrase.Matches.not_eof {D : Rule → List TokenKind → Prop}
    (hD : ∀ r w, D r w → TokenKind.eof ∉ w) {p : Phrase} {w : List TokenKind} (h : p.Matches D w) :
    TokenKind.eof ∉ w := by
  induction p generalizing w with
  | word | sign =>
    rw [h]
    simp
  | number | string | name =>
    obtain ⟨x, rfl⟩ := h
    simp
  | rule r => exact hD r w h
  | seq p q hp hq =>
    obtain ⟨u, v, rfl, hu, hv⟩ := h
    rw [List.mem_append]
    exact not_or.mpr ⟨hp hu, hq hv⟩
  | either p q hp hq => exact h.elim hp hq
  | optional p hp =>
    obtain rfl | h := h
    · exact List.not_mem_nil
    · exact hp h
  | many p hp =>
    obtain ⟨ws, rfl, hws⟩ := h
    exact fun hmem => (List.mem_flatten.mp hmem).elim fun u hu => hp (hws u hu.1) hu.2
  | upTo n p hp =>
    obtain ⟨ws, rfl, -, hws⟩ := h
    exact fun hmem => (List.mem_flatten.mp hmem).elim fun u hu => hp (hws u hu.1) hu.2

theorem Rule.Derives.not_eof {r : Rule} {w : List TokenKind} (h : r.Derives w) :
    TokenKind.eof ∉ w :=
  h.induct fun _ _ h => h.not_eof fun _ _ h => h

theorem Stmt.DeclaredAll.derives {w : List TokenKind} {ss : List Stmt} (h : Stmt.DeclaredAll w ss) :
    Rule.program.Derives w :=
  Rule.derives_of_matches h.divided.derives

/-- The tokens of a word of the grammar, and the mark at the end. -/
theorem Token.Text.of_derives {r : Rule} {ts : List Token} {e : Token}
    (h : r.Derives (ts.map Token.kind)) (he : e.kind.isEof = true) : Token.Text ts e where
  inner t ht := by
    cases hk : t.kind with
    | eof => exact absurd (List.mem_map.mpr ⟨t, ht, hk⟩) h.not_eof
    | number | string | identifier | keyword | symbol => rfl
  last := he

/-- A token at the start of the text. -/
def Token.atStart (k : TokenKind) : Token := ⟨k, default⟩

/-! ### Reading a whole program -/

namespace Reader

variable {n : Nat} {c : Cursor}

/-- When no error is found, something is read. -/
theorem exists_reads_topLevel (hn : c.kinds.length + 1 ≤ n) (hc : c.errors = #[])
    (h : (topLevel n c).2.errors = #[]) : ∃ ss d, (topLevel n).Reads c ss d := by
  have hkeeps : (topLevel n).Keeps c := keeps_topLevel (by rwa [c.length_kinds])
  cases hs : (topLevel n c).1 with
  | none =>
    have hfails := hkeeps.fails hs
    rw [h, hc] at hfails
    exact absurd hfails (Nat.lt_irrefl _)
  | some ss => exact ⟨ss, _, Prod.ext hs rfl, h.trans hc.symm⟩

end Reader

namespace Parsed

variable {ts : List Token} {e : Token} {firstId : Nat}

/-- What it means for a program to be read without errors. -/
theorem errors_eq_nil_iff_reads (h : Token.Text ts e) :
    (ofTokens (ts ++ [e]) firstId).errors = [] ↔
      ∃ d, (Reader.topLevel (ts.length + 1)).Reads ⟨ts, .point .start, e.span, #[], firstId⟩
        (ofTokens (ts ++ [e]) firstId).program.body d := by
  let c : Cursor := ⟨ts, .point .start, e.span, #[], firstId⟩
  have hn : c.kinds.length + 1 ≤ ts.length + 1 := Nat.le_of_eq (by rw [← c.length_kinds])
  have hparsed : ofTokens (ts ++ [e]) firstId =
      let p := Reader.topLevel (ts.length + 1) c
      ⟨⟨p.1.getD [], c.span.merge p.2.span⟩, p.2.errors.toList, p.2.nextId⟩ := by
    rw [ofTokens, Cursor.ofTokens_text h]
  rw [hparsed, Array.toList_eq_nil_iff]
  constructor
  · intro herr
    obtain ⟨ss, d, hreads⟩ := Reader.exists_reads_topLevel hn rfl herr
    refine ⟨d, ?_⟩
    change (Reader.topLevel (ts.length + 1)).Reads c
        ((Reader.topLevel (ts.length + 1) c).1.getD []) d
    rwa [congrArg Prod.fst hreads.eq]
  · rintro ⟨d, hreads⟩
    change (Reader.topLevel (ts.length + 1) c).2.errors = #[]
    rw [congrArg Prod.snd hreads.eq, hreads.errors]

/-- A program that is read without errors is written as its tokens. -/
theorem declaredAll_of_errors_eq_nil (h : Token.Text ts e)
    (herr : (ofTokens (ts ++ [e]) firstId).errors = []) :
    Stmt.DeclaredAll (ts.map Token.kind) (ofTokens (ts ++ [e]) firstId).program.body := by
  obtain ⟨d, hreads⟩ := (errors_eq_nil_iff_reads h).mp herr
  exact (hreads.topLevel (Nat.le_of_eq (by rw [← Cursor.length_kinds])) rfl).2

/-- What is written is read without errors, as a program that is like it. -/
theorem ofTokens_of_declaredAll {ss : List Stmt} (hw : Stmt.DeclaredAll (ts.map Token.kind) ss)
    (he : e.kind.isEof = true) : (ofTokens (ts ++ [e]) firstId).errors = [] ∧
      List.Forall₂ (Stmt.Like .any) ss (ofTokens (ts ++ [e]) firstId).program.body := by
  have h : Token.Text ts e := .of_derives hw.derives he
  have hyields := Reader.yields_topLevel (n := ts.length + 1)
    (c := ⟨ts, .point .start, e.span, #[], firstId⟩) hw rfl rfl
      (Nat.le_of_eq (by rw [← Cursor.length_kinds]))
  obtain ⟨ss', d, hreads, -, hlike⟩ := Reader.yields_iff.mp hyields
  have hbody : (ofTokens (ts ++ [e]) firstId).program.body = ss' := by
    rw [ofTokens, Cursor.ofTokens_text h]
    simp only [hreads.eq, Option.getD_some]
  exact ⟨(errors_eq_nil_iff_reads h).mpr ⟨d, hbody ▸ hreads⟩, hbody ▸ hlike⟩

/-- The parser accepts what the grammar derives, and its declarations divide the
tokens among them. -/
theorem errors_eq_nil_iff_derives (h : Token.Text ts e) (firstId : Nat) :
    ((ofTokens (ts ++ [e]) firstId).errors = [] ↔ Rule.program.Derives (ts.map Token.kind)) ∧
      ((ofTokens (ts ++ [e]) firstId).errors = [] →
        Stmt.Divided (ts.map Token.kind) (ofTokens (ts ++ [e]) firstId).program.body) := by
  refine ⟨⟨fun herr => (declaredAll_of_errors_eq_nil h herr).derives, fun hderives => ?_⟩,
    fun herr => (declaredAll_of_errors_eq_nil h herr).divided⟩
  obtain ⟨ss, hss⟩ := Rule.spells_of_derives hderives
  exact (ofTokens_of_declaredAll hss h.last).1

/-- The tokens of `a.b = 1;`, an assignment with a property on its left side. -/
theorem errors_eq_nil_iff_derives_property :
    Token.Text ([.identifier "a", .symbol .dot, .identifier "b", .symbol .eq, .number 1,
      .symbol .semicolon].map
      Token.atStart) (.atStart .eof) ∧
    ((ofTokens ([.identifier "a", .symbol .dot, .identifier "b", .symbol .eq, .number 1,
      .symbol .semicolon,
      .eof].map Token.atStart) 7).errors = [] ↔
        Rule.program.Derives [.identifier "a", .symbol .dot, .identifier "b",
          .symbol .eq, .number 1,
          .symbol .semicolon]) := by
  have h : Token.Text ([.identifier "a", .symbol .dot, .identifier "b", .symbol .eq, .number 1,
      .symbol .semicolon].map Token.atStart) (.atStart .eof) :=
    ⟨by simp [Token.atStart, TokenKind.isEof], rfl⟩
  exact ⟨h, (errors_eq_nil_iff_derives h 7).1⟩

/-- A canonical program is read back from its tokens. -/
theorem ofTokens_tokensAll {body : List Stmt} (h : Stmt.CanonicalAll body)
    (hk : ts.map Token.kind = Stmt.tokensAll body) (he : e.kind.isEof = true) (firstId : Nat) :
    (ofTokens (ts ++ [e]) firstId).errors = [] ∧
      List.Forall₂ (Stmt.Like .any) body (ofTokens (ts ++ [e]) firstId).program.body :=
  ofTokens_of_declaredAll (hk ▸ Stmt.declaredAll body h) he

/-- The body `if (a) while (b) c(1 - 2 - 3).d; else e = -f;`. -/
def guardedLoop : List Stmt :=
  [.ifElse default (.var default ⟨"a", default⟩)
    (.whileLoop default (.var default ⟨"b", default⟩) (.expr default (.get default
      (.call default (.var default ⟨"c", default⟩) default [.binary default (.binary default
        (.literal default (.number 1)) .subtract default (.literal default (.number 2)))
          .subtract default (.literal default (.number 3))]) ⟨"d", default⟩)))
    (some (.expr default (.assign default ⟨"e", default⟩ (.unary default .negate
      default (.var default ⟨"f", default⟩)))))]

theorem ofTokens_tokensAll_guardedLoop :
    (Stmt.CanonicalAll guardedLoop ∧
      ((Stmt.tokensAll guardedLoop).map Token.atStart).map Token.kind =
        Stmt.tokensAll guardedLoop) ∧
    (ofTokens ((Stmt.tokensAll guardedLoop).map Token.atStart ++ [.atStart .eof]) 3).errors = [] ∧
      List.Forall₂ (Stmt.Like .any) guardedLoop
        (ofTokens ((Stmt.tokensAll guardedLoop).map Token.atStart ++
          [.atStart .eof]) 3).program.body := by
  have h : Stmt.CanonicalAll guardedLoop := by
    simp [guardedLoop, Stmt.CanonicalAll, Stmt.Canonical, Stmt.isStatement, Stmt.endsOpen,
      Expr.Canonical, Expr.CanonicalAll, Expr.precedence, InfixOp.precedence, InfixOp.level,
      Level.precedence, maxArity]
  exact ⟨⟨h, rfl⟩, ofTokens_tokensAll h rfl rfl 3⟩

end Parsed

end Lox
