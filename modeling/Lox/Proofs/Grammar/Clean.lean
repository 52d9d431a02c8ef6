import Lox.Proofs.Reading.Ahead
import Lox.Proofs.Grammar.Spelling
/-!
# Reading without errors

A reading is clean if it succeeds and finds no error. Readers never lose an error that
was found before, so a clean reading is made of clean readings: what a reader did can be
read off step by step.
-/

namespace Lox

/-- The kinds of the tokens not read yet. -/
def Cursor.kinds (c : Cursor) : List TokenKind := c.rest.map Token.kind

namespace Cursor

variable {c : Cursor} {k : TokenKind} {w : List TokenKind}

theorem length_kinds (c : Cursor) : c.rest.length = c.kinds.length := (List.length_map _).symm

theorem kinds_of_kind (h : c.kind = k) (hk : k.isEof = false) : c.kinds = k :: c.advance.kinds := by
  unfold kind at h
  unfold kinds advance
  split at h
  · subst h
    cases hk
  · rename_i t ts hr
    rw [hr, List.map_cons, h]

theorem kind_of_kinds (h : c.kinds = k :: w) : c.kind = k := by
  obtain ⟨t, ts, hr, ht, -⟩ := List.map_eq_cons_iff.mp h
  rw [kind, hr]
  exact ht

theorem kinds_advance (h : c.kinds = k :: w) : c.advance.kinds = w := by
  obtain ⟨t, ts, hr, -, hw⟩ := List.map_eq_cons_iff.mp h
  rw [advance, hr]
  exact hw

theorem atEnd_iff : c.atEnd = true ↔ c.kinds = [] := by
  rw [atEnd, List.isEmpty_iff, kinds, List.map_eq_nil_iff]

end Cursor

namespace Reader

variable {α β : Type}

/-- `r` reads `a` from `c` on, stops at `d` and finds no error. -/
structure Reads (r : Reader α) (c : Cursor) (a : α) (d : Cursor) : Prop where
  eq : r c = (some a, d)
  errors : d.errors = c.errors

variable {r : Reader α} {f : α → Reader β} {c d e : Cursor} {a : α} {b : β}

/-! ### Clean readings, step by step -/

theorem Reads.bind (h : r.Reads c a d) (hf : (f a).Reads d b e) : (r >>= f).Reads c b e := by
  refine ⟨?_, hf.errors.trans h.errors⟩
  rw [bind_of_some (by rw [h.eq]), h.eq]
  exact hf.eq

/-- A clean reading of two parts is a clean reading of each. -/
theorem reads_bind [r.Onward] [∀ a, (f a).Onward] :
    (r >>= f).Reads c b e ↔ ∃ a d, r.Reads c a d ∧ (f a).Reads d b e := by
  refine ⟨fun ⟨h, herrors⟩ => ?_, fun ⟨a, d, h, hf⟩ => h.bind hf⟩
  cases ha : (r c).1 with
  | none =>
    rw [bind_of_none ha] at h
    cases h
  | some a =>
    rw [bind_of_some ha] at h
    have hfirst := Onward.errors (r := r) c
    have hsecond := Onward.errors (r := f a) (r c).2
    rw [h, herrors] at hsecond
    have hmid : (r c).2.errors = c.errors :=
      Array.toList_inj.mp (hsecond.eq_of_length_le hfirst.length_le)
    exact ⟨a, _, ⟨Prod.ext ha rfl, hmid⟩, h, herrors.trans hmid.symm⟩

@[simp] theorem reads_pure {a' : α} : (pure a : Reader α).Reads c a' d ↔ a' = a ∧ d = c := by
  refine ⟨fun h => ?_, ?_⟩
  · cases h.eq
    exact ⟨rfl, rfl⟩
  · rintro ⟨rfl, rfl⟩
    exact ⟨rfl, rfl⟩

theorem reads_map [r.Onward] {g : α → β} :
    (g <$> r).Reads c b d ↔ ∃ a, r.Reads c a d ∧ b = g a := by
  change (r >>= fun a => pure (g a)).Reads c b d ↔ _
  simp only [reads_bind, reads_pure]
  exact ⟨fun ⟨a, _, ha, hb, hd⟩ => ⟨a, hd ▸ ha, hb⟩, fun ⟨a, ha, hb⟩ => ⟨a, d, ha, hb, rfl⟩⟩

@[simp] theorem not_reads_fail : ¬ (fail : Reader α).Reads c a d := fun h => nomatch h.eq

theorem reads_congr {s : Reader α} (h : r c = s c) : r.Reads c a d ↔ s.Reads c a d := by
  refine ⟨fun hr => ⟨h ▸ hr.eq, hr.errors⟩, fun hs => ⟨h ▸ hs.eq, hs.errors⟩⟩

theorem reads_ask_bind {γ : Type} {g : Cursor → γ} {f : γ → Reader β} :
    (ask g >>= f).Reads c b e ↔ (f (g c)).Reads c b e := reads_congr rfl

/-- Taking the next token if it is the one looked for. -/
theorem reads_takeIf {r : Reader Bool} {p : Prop} [Decidable p] {yes no : Reader β}
    (hr : r c = if p then (some true, c.advance) else (some false, c)) :
    (do if ← r then yes else no).Reads c b e ↔ p ∧ yes.Reads c.advance b e ∨
    ¬ p ∧ no.Reads c b e := by
  by_cases hp : p
  · rw [if_pos hp] at hr
    have heq : (do if ← r then yes else no) c = yes c.advance := by
      rw [bind_of_some (a := true)] <;> simp [hr]
    simp only [hp, true_and, not_true_eq_false, false_and, or_false]
    exact ⟨fun h => ⟨heq ▸ h.eq, h.errors.trans (errors_advance c).symm⟩,
      fun h => ⟨heq ▸ h.eq, h.errors.trans (errors_advance c)⟩⟩
  · rw [if_neg hp] at hr
    have heq : (do if ← r then yes else no) c = no c := by
      rw [bind_of_some (a := false)] <;> simp [hr]
    simp only [hp, false_and, not_false_eq_true, true_and, false_or]
    exact reads_congr heq

theorem reads_eat {s : Symbol} {yes no : Reader β} :
    (do if ← eat s then yes else no).Reads c b e ↔
      c.kind = .symbol s ∧ yes.Reads c.advance b e ∨ c.kind ≠ .symbol s ∧ no.Reads c b e := by
  rw [reads_takeIf (p := c.isSymbol s = true) rfl, Cursor.isSymbol_iff]

theorem reads_eatKeyword {w : Keyword} {yes no : Reader β} :
    (do if ← eatKeyword w then yes else no).Reads c b e ↔
      c.kind = .keyword w ∧ yes.Reads c.advance b e ∨ c.kind ≠ .keyword w ∧ no.Reads c b e := by
  rw [reads_takeIf (p := c.isKeyword w = true) rfl, Cursor.isKeyword_iff]

/-- Looking at what comes next. -/
theorem reads_ask_ite {g : Cursor → Bool} {yes no : Reader β} :
    (do if ← ask g then yes else no).Reads c b e ↔ g c = true ∧ yes.Reads c b e ∨
    ¬ g c = true ∧ no.Reads c b e := by
  rw [reads_ask_bind]
  cases g c <;> simp

theorem reads_isSymbol {s : Symbol} {yes no : Reader β} :
    (do if ← isSymbol s then yes else no).Reads c b e ↔
      c.kind = .symbol s ∧ yes.Reads c b e ∨ c.kind ≠ .symbol s ∧ no.Reads c b e := by
  rw [isSymbol, reads_ask_ite, Cursor.isSymbol_iff]

theorem reads_advance {s : Span} : advance.Reads c s d ↔ s = c.span ∧ d = c.advance := by
  refine ⟨fun h => ?_, ?_⟩
  · cases h.eq
    exact ⟨rfl, rfl⟩
  · rintro ⟨rfl, rfl⟩
    exact ⟨rfl, errors_advance c⟩

theorem reads_expect {s : Symbol} {place : String} {t : Span} :
    (expect s place).Reads c t d ↔ c.kind = .symbol s ∧ t = c.span ∧ d = c.advance := by
  have hsymbol := c.isSymbol_iff (s := s)
  refine ⟨fun h => ?_, ?_⟩
  · have heq := h.eq
    unfold expect at heq
    split at heq
    · rename_i hs
      cases heq
      exact ⟨hsymbol.mp hs, rfl, rfl⟩
    · cases heq
  · rintro ⟨hk, rfl, rfl⟩
    exact ⟨by rw [expect, if_pos (hsymbol.mpr hk)], errors_advance c⟩

theorem reads_name {role : String} {x : Ident} :
    (name role).Reads c x d ↔ c.kind = x.token ∧ x.span = c.span ∧ d = c.advance := by
  refine ⟨fun h => ?_, ?_⟩
  · have heq := h.eq
    unfold name at heq
    split at heq
    · rename_i hk
      cases heq
      exact ⟨hk, rfl, rfl⟩
    · cases heq
  · rintro ⟨hk, hspan, rfl⟩
    refine ⟨?_, errors_advance c⟩
    rw [name, hk, Ident.token, ← hspan]

theorem reads_site {s : Span} {t : Site} :
    (site s).Reads c t d ↔ t = ⟨c.nextId, s⟩ ∧ d = { c with nextId := c.nextId + 1 } := by
  refine ⟨fun h => ?_, ?_⟩
  · cases h.eq
    exact ⟨rfl, rfl⟩
  · rintro ⟨rfl, rfl⟩
    exact ⟨rfl, rfl⟩

theorem Reads.kinds_expect {s : Symbol} {place : String} {t : Span}
    (h : (expect s place).Reads c t d) : c.kinds = .symbol s :: d.kinds := by
  obtain ⟨hk, -, rfl⟩ := reads_expect.mp h
  exact Cursor.kinds_of_kind hk rfl

theorem Reads.kinds_name {role : String} {x : Ident} (h : (name role).Reads c x d) :
    c.kinds = x.token :: d.kinds := by
  obtain ⟨hk, -, rfl⟩ := reads_name.mp h
  exact Cursor.kinds_of_kind hk rfl

theorem Reads.kinds_site {s : Span} {t : Site} (h : (site s).Reads c t d) : d.kinds = c.kinds := by
  obtain ⟨-, rfl⟩ := reads_site.mp h
  rfl

theorem Reads.kinds_advance {s : Span} {k : TokenKind} (h : advance.Reads c s d) (hc : c.kind = k)
    (hk : k.isEof = false) : c.kinds = k :: d.kinds := by
  obtain ⟨-, rfl⟩ := reads_advance.mp h
  exact Cursor.kinds_of_kind hc hk

/-- A reading that may fail has not failed if no error was found. -/
theorem Reads.of_attempt {o : Option α} (h : (attempt r).Reads c o d) (hr : r.Keeps c) :
    ∃ a, o = some a ∧ r.Reads c a d := by
  obtain ⟨h, herrors⟩ := h
  cases h
  cases ha : (r c).1 with
  | none =>
    have hfails := hr.fails ha
    rw [herrors] at hfails
    exact absurd hfails (Nat.lt_irrefl _)
  | some a => exact ⟨a, rfl, Prod.ext ha rfl, herrors⟩

theorem not_reads_report {p : SyntaxProblem} {u : Unit} : ¬ (report p).Reads c u d := by
  intro h
  have hsize := congrArg Array.size h.errors
  cases h.eq
  simp [Cursor.reportHere] at hsize

theorem not_reads_reportAt {p : SyntaxProblem} {s : Span} {u : Unit} :
    ¬ (change (·.reportAt p s)).Reads c u d := by
  intro h
  have hsize := congrArg Array.size h.errors
  cases h.eq
  simp [Cursor.reportAt] at hsize

end Reader

end Lox
