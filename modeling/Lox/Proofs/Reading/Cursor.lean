import Lox.Syntax.Cursor
import Lox.Proofs.Reading.Sights
/-!
# What readers keep

A reader that starts at a good cursor stops at one, whether it fails or not, and never takes
a number back. What else it does when it succeeds is said of what it has read and of the
cursor where it stops.
-/

namespace Lox

/-- Whether a token starts in `P` and its name, if it is an identifier, is in `N`. -/
structure Token.Ok (P : Position → Prop) (N : String → Prop) (t : Token) : Prop where
  start : P t.span.first
  named : ∀ x, t.kind = .identifier x → N x

structure Cursor.Ok (P : Position → Prop) (N : String → Prop) (c : Cursor) : Prop where
  tokens : ∀ t ∈ c.rest, t.Ok P N
  finish : P c.finish.first
  errors : ∀ e ∈ c.errors, P e.span.first

variable {P : Position → Prop} {N : String → Prop}

namespace Cursor.Ok

variable {c : Cursor}

theorem span (h : c.Ok P N) : P c.span.first := by
  unfold Cursor.span
  split
  · exact h.finish
  · rename_i t ts hr
    exact (h.tokens t (by simp [hr])).start

theorem named (h : c.Ok P N) {x : String} (hx : c.kind = .identifier x) : N x := by
  unfold kind at hx
  split at hx
  · cases hx
  · rename_i t ts hr
    exact (h.tokens t (by simp [hr])).named x hx

theorem advance (h : c.Ok P N) : c.advance.Ok P N := by
  unfold Cursor.advance
  split
  · exact h
  · rename_i t ts hr
    exact ⟨fun u hu => h.tokens u (by simp [hr, hu]), h.finish, h.errors⟩

theorem reportAt (h : c.Ok P N) (p : SyntaxProblem) {s : Span} (hs : P s.first) :
    (c.reportAt p s).Ok P N where
  tokens := h.tokens
  finish := h.finish
  errors e he := by
    rcases Array.mem_push.mp he with he | rfl
    · exact h.errors e he
    · exact hs

theorem reportHere (h : c.Ok P N) (p : SyntaxProblem) : (c.reportHere p).Ok P N where
  tokens := h.tokens
  finish := h.finish
  errors e he := by
    rcases Array.mem_push.mp he with he | rfl
    · exact h.errors e he
    · exact h.span

end Cursor.Ok

@[simp] theorem Cursor.nextId_advance (c : Cursor) : c.advance.nextId = c.nextId := by
  unfold Cursor.advance
  split <;> rfl

private theorem Cursor.previous_advance {c : Cursor} {s : Symbol} (h : c.isSymbol s = true) :
    c.advance.previous = c.span := by
  unfold isSymbol kind at h
  unfold advance span
  split
  · rename_i hr
    simp [hr] at h
  · rfl

theorem Cursor.Ok.skipStatement (fuel : Nat) {c : Cursor} (h : c.Ok P N) :
    (c.skipStatement fuel).Ok P N := by
  induction fuel generalizing c with
  | zero => exact h
  | succ fuel ih =>
    unfold Cursor.skipStatement
    split
    · exact h
    · split
      · exact h.advance
      · exact ih h.advance

private theorem Cursor.nextId_skipStatement (fuel : Nat) (c : Cursor) :
    (c.skipStatement fuel).nextId = c.nextId := by
  induction fuel generalizing c with
  | zero => rfl
  | succ fuel ih =>
    unfold Cursor.skipStatement
    split
    · rfl
    · split
      · exact c.nextId_advance
      · rw [ih, c.nextId_advance]

theorem Cursor.Ok.recover {c : Cursor} (h : c.Ok P N) : c.recover.Ok P N := by
  unfold Cursor.recover
  split
  · exact h.advance
  · exact h.advance.skipStatement _

@[simp] theorem Cursor.nextId_recover (c : Cursor) : c.recover.nextId = c.nextId := by
  unfold Cursor.recover
  split
  · exact c.nextId_advance
  · rw [nextId_skipStatement, nextId_advance]

namespace Reader

variable {α β : Type}

/-- `r` keeps the cursor `c` good, takes no number back, and reads something with
`Q`, if it succeeds. -/
def Runs (P : Position → Prop) (N : String → Prop) (r : Reader α) (c : Cursor)
    (Q : α → Cursor → Prop) : Prop :=
  (r c).2.Ok P N ∧ c.nextId ≤ (r c).2.nextId ∧ ∀ a, (r c).1 = some a → Q a (r c).2

variable {r : Reader α} {c : Cursor} {Q R : α → Cursor → Prop}

theorem Runs.imp (h : r.Runs P N c Q) (hq : ∀ a d, Q a d → R a d) : r.Runs P N c R :=
  ⟨h.1, h.2.1, fun a ha => hq a _ (h.2.2 a ha)⟩

theorem Runs.bind {f : α → Reader β} {R : β → Cursor → Prop} (h : r.Runs P N c Q)
    (hf : ∀ a d, d.Ok P N → c.nextId ≤ d.nextId → Q a d → (f a).Runs P N d R) :
    (r >>= f).Runs P N c R := by
  change (Reader.bind r f).Runs P N c R
  unfold Runs Reader.bind at *
  obtain ⟨hd, hn, hq⟩ := h
  split
  · rename_i a d hr
    rw [hr] at hd hn hq
    obtain ⟨he, hm, hr⟩ := hf a d hd hn (hq a rfl)
    exact ⟨he, Nat.le_trans hn hm, hr⟩
  · rename_i d hr
    rw [hr] at hd hn
    exact ⟨hd, hn, fun b hb => by cases hb⟩

theorem Runs.map {f : α → β} {R : β → Cursor → Prop} (h : r.Runs P N c Q)
    (hf : ∀ a d, Q a d → R (f a) d) : (f <$> r).Runs P N c R := by
  refine h.bind fun a d hd _ hq => ⟨hd, Nat.le_refl _, fun b hb => ?_⟩
  cases hb
  exact hf a d hq

/-- A reader may be given fuel that depends on where it starts. -/
theorem Runs.fuelled {r : Nat → Reader α} {f : Cursor → Nat} (h : (r (f c)).Runs P N c Q) :
    Runs P N (fun c => r (f c) c) c Q := h

theorem runs_pure (hc : c.Ok P N) {a : α} (h : Q a c) : (pure a : Reader α).Runs P N c Q := by
  refine ⟨hc, Nat.le_refl _, fun b hb => ?_⟩
  cases hb
  exact h

theorem runs_fail (hc : c.Ok P N) : (fail : Reader α).Runs P N c Q :=
  ⟨hc, Nat.le_refl _, fun b hb => by cases hb⟩

theorem runs_ask (hc : c.Ok P N) (f : Cursor → α) :
    (ask f).Runs P N c fun a d => a = f c ∧ d = c := by
  refine ⟨hc, Nat.le_refl _, fun a ha => ?_⟩
  cases ha
  exact ⟨rfl, rfl⟩

theorem runs_advance (hc : c.Ok P N) :
    advance.Runs P N c fun s d => P s.first ∧ d.nextId = c.nextId := by
  refine ⟨hc.advance, Nat.le_of_eq c.nextId_advance.symm, fun s hs => ?_⟩
  cases hs
  exact ⟨hc.span, c.nextId_advance⟩

theorem runs_eat (hc : c.Ok P N) (s : Symbol) :
    (eat s).Runs P N c fun b d => d.nextId = c.nextId ∧ (b = true → P d.previous.first) := by
  unfold Runs eat
  split
  · rename_i h
    refine ⟨hc.advance, Nat.le_of_eq c.nextId_advance.symm,
      fun b hb => ⟨c.nextId_advance, fun _ => ?_⟩⟩
    rw [Cursor.previous_advance h]
    exact hc.span
  · refine ⟨hc, Nat.le_refl _, fun b hb => ⟨rfl, fun h => ?_⟩⟩
    cases hb
    cases h

theorem runs_eatKeyword (hc : c.Ok P N) (w : Keyword) :
    (eatKeyword w).Runs P N c fun _ d => d.nextId = c.nextId := by
  unfold Runs eatKeyword
  split
  · exact ⟨hc.advance, Nat.le_of_eq c.nextId_advance.symm, fun _ _ => c.nextId_advance⟩
  · exact ⟨hc, Nat.le_refl _, fun _ _ => rfl⟩

theorem runs_report (hc : c.Ok P N) (p : SyntaxProblem) :
    (report p).Runs P N c fun _ d => d.nextId = c.nextId :=
  ⟨hc.reportHere p, Nat.le_refl _, fun _ _ => rfl⟩

theorem runs_expect (hc : c.Ok P N) (s : Symbol) (place : String) :
    (expect s place).Runs P N c fun t d => P t.first ∧ d.nextId = c.nextId := by
  unfold Runs expect
  split
  · refine ⟨hc.advance, Nat.le_of_eq c.nextId_advance.symm, fun t ht => ?_⟩
    cases ht
    exact ⟨hc.span, c.nextId_advance⟩
  · exact ⟨hc.reportHere _, Nat.le_refl _, fun t ht => by cases ht⟩

theorem runs_name (hc : c.Ok P N) (role : String) :
    (name role).Runs P N c fun x d => N x.name ∧ P x.span.first ∧ d.nextId = c.nextId := by
  unfold Runs name
  split
  · rename_i x hx
    refine ⟨hc.advance, Nat.le_of_eq c.nextId_advance.symm, fun y hy => ?_⟩
    cases hy
    exact ⟨hc.named hx, hc.span, c.nextId_advance⟩
  · exact ⟨hc.reportHere _, Nat.le_refl _, fun t ht => by cases ht⟩

theorem runs_site (hc : c.Ok P N) (s : Span) :
    (site s).Runs P N c fun t d => t = ⟨c.nextId, s⟩ ∧ d.nextId = c.nextId + 1 := by
  refine ⟨⟨hc.tokens, hc.finish, hc.errors⟩, Nat.le_succ _, fun t ht => ?_⟩
  cases ht
  exact ⟨rfl, rfl⟩

end Reader

/-- A merged span starts where one of the two spans starts. -/
theorem Span.first_merge {a b : Span} (ha : P a.first) (hb : P b.first) : P (a.merge b).first := by
  change P (if a.first ≤ b.first then a.first else b.first)
  split
  · exact ha
  · exact hb

end Lox
