import Lox.Proofs.Reading.Progress
/-!
# Recovery from a failed declaration

After a failure reading goes on where the next statement may begin: at the end, just past a
semicolon, or just before a reserved word that begins a statement. Recovery is to find the first
such place. It always moves past the token at which the declaration failed, though, before it
looks for one. So if that token is itself a word that begins a statement, then it is lost, and
the statement with it.
-/

namespace Lox

/-- A reserved word that begins a declaration or a statement. -/
def Token.BeginsStatement (t : Token) : Prop :=
  t.kind ∈ [Keyword.cls, .fun, .var, .for, .if, .while, .print, .return].map TokenKind.keyword

/-- Where a statement may begin: the tokens `ts` were skipped, and `us` are left. A semicolon counts
only if it was skipped. -/
def Boundary (ts us : List Token) : Prop :=
  us = [] ∨ (∃ t ∈ ts.getLast?, t.kind = .symbol .semicolon) ∨ ∃ t ∈ us.head?, t.BeginsStatement

/-- The tokens `us` are what is left of `all` at the first boundary from the one
with number `n` on. -/
structure FirstBoundary (n : Nat) (all ts us : List Token) : Prop where
  split : all = ts ++ us
  least : us = [] ∨ n ≤ ts.length
  boundary : Boundary ts us
  first : ∀ vs ws, all = vs ++ ws → n ≤ vs.length → vs.length < ts.length → ¬ Boundary vs ws

section

variable {t : Token} {ts us : List Token} {n : Nat} {c d : Cursor}

theorem Boundary.cons_iff (ht : t.kind ≠ .symbol .semicolon) :
    Boundary (t :: ts) us ↔ Boundary ts us := by
  cases ts <;> simp [Boundary, ht]

theorem FirstBoundary.here (h : Boundary [] us) : FirstBoundary 0 us [] us :=
  ⟨rfl, .inr (Nat.le_refl _), h, fun _ _ _ _ hlt => absurd hlt (Nat.not_lt_zero _)⟩

/-- The first place after a token, if that is a boundary. -/
theorem FirstBoundary.next (h : Boundary [t] us) : FirstBoundary 1 (t :: us) [t] us :=
  ⟨rfl, .inr (Nat.le_refl _), h, fun _ _ _ hle hlt => absurd hle (Nat.not_le.mpr hlt)⟩

/-- A token that ends no statement is skipped. -/
theorem FirstBoundary.skip (ht : t.kind ≠ .symbol .semicolon) {all : List Token}
    (h : FirstBoundary 0 all ts us) : FirstBoundary 1 (t :: all) (t :: ts) us where
  split := by rw [h.split, List.cons_append]
  least := .inr (Nat.le_add_left 1 _)
  boundary := (Boundary.cons_iff ht).mpr h.boundary
  first vs ws hall hle hlt hvs := by
    obtain _ | ⟨v, vs⟩ := vs
    · cases hle
    · obtain ⟨rfl, hrest⟩ := List.cons.inj hall
      exact h.first vs ws hrest (Nat.zero_le _) (Nat.lt_of_succ_lt_succ hlt)
        ((Boundary.cons_iff ht).mp hvs)

/-- Only a word that begins a statement makes it matter that the first place is left out. -/
theorem FirstBoundary.zero_iff {all : List Token} (h : FirstBoundary 1 all ts us) :
    FirstBoundary 0 all ts us ↔ ∀ t ∈ all.head?, ¬ t.BeginsStatement := by
  constructor
  · intro h0 t ht hword
    have hts : ts ≠ [] := by
      rintro rfl
      obtain rfl : all = us := h.split
      obtain rfl | hle := h.least
      · cases ht
      · cases hle
    exact h0.first [] all rfl (Nat.le_refl _) (List.length_pos_of_ne_nil hts)
      (.inr (.inr ⟨t, ht, hword⟩))
  · intro hall
    refine ⟨h.split, .inr (Nat.zero_le _), h.boundary, fun vs ws hsplit _ hlt hvs => ?_⟩
    obtain _ | ⟨v, vs⟩ := vs
    · obtain rfl : all = ws := hsplit
      obtain rfl | ⟨t, ht, -⟩ | ⟨t, ht, hword⟩ := hvs
      · rw [(List.append_eq_nil_iff.mp h.split.symm).1] at hlt
        cases hlt
      · cases ht
      · exact hall t ht hword
    · exact h.first (v :: vs) ws hsplit (Nat.le_add_left 1 _) hlt hvs

/-- No word that begins a statement is skipped, but for those before the search begins. -/
theorem FirstBoundary.not_begins {all : List Token} (h : FirstBoundary n all ts us) :
    ∀ t ∈ ts.drop n, ¬ t.BeginsStatement := by
  intro t ht hword
  obtain ⟨i, hi, rfl⟩ := List.mem_iff_getElem.mp ht
  rw [List.length_drop] at hi
  rw [List.getElem_drop] at hword
  have hlt : n + i < ts.length := by omega
  refine h.first (ts.take (n + i)) (ts.drop (n + i) ++ us) ?_ ?_ ?_ (.inr (.inr ⟨_, ?_, hword⟩))
  · rw [← List.append_assoc, List.take_append_drop, h.split]
  · rw [List.length_take]
    omega
  · rw [List.length_take]
    omega
  · rw [List.drop_eq_getElem_cons hlt]
    rfl

namespace Cursor

theorem startsStatement_iff : c.startsStatement = true ↔ ∃ t ∈ c.rest.head?, t.BeginsStatement := by
  unfold startsStatement kind Token.BeginsStatement
  cases c.rest with
  | nil => simp
  | cons t ts =>
    simp only [List.head?_cons, Option.mem_some_iff, exists_eq_left']
    cases t.kind with
    | keyword w => cases w <;> simp
    | number | string | identifier | symbol | eof => simp

theorem boundary_iff : Boundary [] c.rest ↔ c.atEnd = true ∨ c.startsStatement = true := by
  rw [startsStatement_iff, atEnd, List.isEmpty_iff]
  simp [Boundary]

/-- Past the next token, which may end the statement, skipping goes on to the first boundary. -/
theorem firstBoundary_past (hc : c.rest ≠ [])
    (hskip : ∃ ts, FirstBoundary 0 c.advance.rest ts (c.advance.skipStatement n).rest) :
    ∃ ts, FirstBoundary 1 c.rest ts
      (if c.isSymbol .semicolon then c.advance else c.advance.skipStatement n).rest := by
  obtain ⟨t, rest, hc⟩ := List.exists_cons_of_ne_nil hc
  have hkind : c.kind = t.kind := by rw [kind, hc]
  have hadvance : c.advance.rest = rest := by rw [advance, hc]
  rw [hadvance] at hskip
  rw [hc]
  split
  · rename_i hs
    rw [isSymbol_iff, hkind] at hs
    rw [hadvance]
    exact ⟨[t], .next (.inr (.inl ⟨t, rfl, hs⟩))⟩
  · rename_i hs
    rw [isSymbol_iff, hkind] at hs
    obtain ⟨ts, hts⟩ := hskip
    exact ⟨t :: ts, hts.skip hs⟩

/-- Skipping finds the first boundary. -/
theorem firstBoundary_skipStatement (hn : c.rest.length ≤ n) :
    ∃ ts, FirstBoundary 0 c.rest ts (c.skipStatement n).rest := by
  induction n generalizing c with
  | zero => exact ⟨[], .here (.inl (List.eq_nil_of_length_eq_zero (Nat.le_zero.mp hn)))⟩
  | succ n ih =>
    unfold skipStatement
    split
    · rename_i hstop
      exact ⟨[], .here (boundary_iff.mpr (by simpa using hstop))⟩
    · rename_i hgo
      have hnot : ¬ Boundary [] c.rest := fun hb => hgo (by simpa using boundary_iff.mp hb)
      have hc : c.rest ≠ [] := fun hc => hnot (.inl hc)
      have hnext : c.advance.rest.length ≤ n :=
        Nat.le_of_lt_succ (Nat.lt_of_lt_of_le (Reader.length_advance hc) hn)
      obtain ⟨ts, hts⟩ := firstBoundary_past hc (ih hnext)
      exact ⟨ts, hts.zero_iff.mpr fun t ht hword => hnot (.inr (.inr ⟨t, ht, hword⟩))⟩

/-- Recovery finds the first boundary after the next token. -/
theorem firstBoundary_recover (c : Cursor) : ∃ ts, FirstBoundary 1 c.rest ts c.recover.rest := by
  by_cases hc : c.rest = []
  · rw [rest_recover hc, hc]
    exact ⟨[], rfl, .inl rfl, .inl rfl, fun _ _ _ _ hlt => absurd hlt (Nat.not_lt_zero _)⟩
  · exact firstBoundary_past hc (firstBoundary_skipStatement (c.length_advance_le))

end Cursor

end

/-- A declaration that fails goes on from where the failure was met, at the first boundary after the
token there. That is the first boundary from that token on if and only if the token does not begin a
statement itself. No other word that begins a statement is skipped. -/
theorem Reading.recovers_past (c : Cursor) (h : (declaration.read c).1 = none) :
    ∃ e ts, declarationBody read c.kind c = (none, e) ∧ (declaration.read c).2 = e.recover ∧
      FirstBoundary 1 e.rest ts (declaration.read c).2.rest ∧
      (FirstBoundary 0 e.rest ts (declaration.read c).2.rest ↔ e.startsStatement = false) ∧
      ∀ t ∈ ts.tail, ¬ t.BeginsStatement := by
  have hread : declaration.read c =
      Reader.StatementRuns.recovered (declarationBody read c.kind c) :=
    (body_read declaration c).symm
  rw [hread] at h ⊢
  generalize declarationBody read c.kind c = o at h ⊢
  obtain ⟨_ | s, e⟩ := o
  · obtain ⟨ts, hts⟩ := e.firstBoundary_recover
    refine ⟨e, ts, rfl, rfl, hts, hts.zero_iff.trans ?_,
      fun t ht => hts.not_begins t (by rwa [List.drop_one])⟩
    rw [← Bool.not_eq_true, Cursor.startsStatement_iff]
    simp
  · cases h

/-- `var x print nil;`, where a semicolon is missing. -/
def unclosedTokens : List Token :=
  [⟨.keyword .var, .point ⟨1, 1⟩⟩, ⟨.identifier "x", .point ⟨1, 5⟩⟩,
    ⟨.keyword .print, .point ⟨1, 7⟩⟩,
    ⟨.keyword .nil, .point ⟨1, 13⟩⟩, ⟨.symbol .semicolon, .point ⟨1, 16⟩⟩]

/-- The declaration fails at `print`, and the statement that begins there is skipped. -/
theorem Reading.recovers_past_print : ∃ e ts,
    declarationBody read (.keyword .var) (Cursor.ofTokens unclosedTokens 0) = (none, e) ∧
      e.rest.head? = some ⟨.keyword .print, .point ⟨1, 7⟩⟩ ∧
      (declaration.read (Cursor.ofTokens unclosedTokens 0)).2.rest = [] ∧
      FirstBoundary 1 e.rest ts [] ∧ ¬ FirstBoundary 0 e.rest ts [] := by
  have hnone : (declaration.read (Cursor.ofTokens unclosedTokens 0)).1.isNone = true := by
    decide +kernel
  have hrest : (declaration.read (Cursor.ofTokens unclosedTokens 0)).2.rest = [] :=
    List.isEmpty_iff.mp (by decide +kernel)
  obtain ⟨e, ts, he, -, hfirst, hiff, -⟩ := recovers_past _ (Option.isNone_iff_eq_none.mp hnone)
  have hcut : e.rest = unclosedTokens.drop 2 := by
    rw [show e = (declarationBody read (.keyword .var) (Cursor.ofTokens unclosedTokens 0)).2 from
      congrArg Prod.snd he.symm]
    rfl
  rw [hrest] at hfirst hiff
  refine ⟨e, ts, he, by rw [hcut]; rfl, hrest, hfirst, fun h => ?_⟩
  have hstarts := hiff.mp h
  rw [Cursor.startsStatement, Cursor.kind, hcut] at hstarts
  cases hstarts

end Lox
