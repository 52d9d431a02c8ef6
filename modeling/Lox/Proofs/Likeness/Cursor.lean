import Lox.Syntax.Cursor
import Lox.Proofs.Likeness.Syntax
/-!
# Reading tokens that are alike

Two cursors are alike when they have the same tokens left but for their spans, and after those the
second one may have more tokens. Readers go together on such cursors as long as the first one has
tokens left. When it runs out of them while the second one may not, the first reader is lost:
nothing more is known of the second one. A reader that is closed, because the last thing it does is
to take a token, is lost only if it fails.

Readers need no more fuel than they get, so it does not matter how much they get: one that fails has
always found an error.
-/

namespace Lox

/-- `N` relates the numbers that the expressions of two texts get. -/
structure Likeness.Numbers (L : Likeness) (N : Nat → Nat → Prop) : Prop where
  id : ∀ {i i'}, N i i' → L.id i i'
  succ : ∀ {i i'}, N i i' → N (i + 1) (i' + 1)
  merge : ∀ {s s' t t'}, L.span s s' → L.span t t' → L.span (s.merge t) (s'.merge t')

variable (L : Likeness) (N : Nat → Nat → Prop) (us : Option (List Token))

structure Token.Like (t t' : Token) : Prop where
  kind : t'.kind = t.kind
  span : L.span t.span t'.span

/-- The second cursor has tokens that are alike. After them either both are at ends that are alike,
or the second one has the tokens that `us` holds and then any end. -/
structure Cursor.Like (c c' : Cursor) : Prop where
  rest : ∃ ts, List.Forall₂ (Token.Like L) c.rest ts ∧ c'.rest = ts ++ us.getD []
  previous : L.span c.previous c'.previous
  finish : us = none → L.span c.finish c'.finish
  errors : List.Forall₂ L.Located c.errors.toList c'.errors.toList
  nextId : N c.nextId c'.nextId

/-- The first cursor is at its end, and the second one is not known to be. -/
def Cursor.Lost (c : Cursor) : Prop := us ≠ none ∧ c.rest = []

namespace Reader

variable {α α' : Type}

/-- What a reader keeps. One that fails has found an error. -/
structure Keeps (r : Reader α) (c : Cursor) : Prop where
  shorter : (r c).2.rest.length ≤ c.rest.length
  errors : c.errors.size ≤ (r c).2.errors.size
  fails : (r c).1 = none → c.errors.size < (r c).2.errors.size

/-- A reader that starts at the end of the tokens stays there, and fails if it is closed. -/
structure Ends (closed : Prop) (r : Reader α) (c : Cursor) : Prop extends r.Keeps c where
  rest : (r c).2.rest = []
  failed : closed → (r c).1 = none

/-- Both readers fail, or both read something, and they stop at cursors that are alike. -/
def Together (r : Reader α) (c : Cursor) (r' : Reader α') (c' : Cursor)
    (Q : α → α' → Cursor → Prop) : Prop :=
  (r c).2.Like L N us (r' c').2 ∧
    ((r c).1 = none ∧ (r' c').1 = none ∨
      ∃ a a', (r c).1 = some a ∧ (r' c').1 = some a' ∧ Q a a' (r c).2)

/-- The readers go together, or the first one is lost. -/
structure Twins (closed : Prop) (r : Reader α) (c : Cursor) (r' : Reader α') (c' : Cursor)
    (Q : α → α' → Cursor → Prop) : Prop extends r.Keeps c where
  together : (r c).2.Lost us ∧ (closed → (r c).1 = none) ∨ Together L N us r c r' c' Q

end Reader

variable {L N us}

/-! ### Cursors -/

namespace Cursor

theorem mem_push_errors {α : Type} {R : α → α → Prop} {a a' : Array α}
    (h : List.Forall₂ R a.toList a'.toList) {x x' : α} (hx : R x x') :
    List.Forall₂ R (a.push x).toList (a'.push x').toList := by
  rw [Array.toList_push, Array.toList_push]
  exact List.rel_append h (.cons hx .nil)

namespace Like

variable {c c' : Cursor}

/-- Cursors that are alike look at tokens that are alike, unless the first one is lost. -/
theorem kind (h : c.Like L N us c') (hc : ¬ c.Lost us) : c'.kind = c.kind := by
  obtain ⟨ts, hts, hrest⟩ := h.rest
  cases hr : c.rest with
  | nil =>
    have hus : us = none := by_contra fun hu => hc ⟨hu, hr⟩
    rw [hr] at hts
    cases hts
    simp [Cursor.kind, hr, hrest, hus]
  | cons t rest =>
    rw [hr] at hts
    cases hts with
    | cons ht _ => simp [Cursor.kind, hr, hrest, ht.kind]

theorem span (h : c.Like L N us c') (hc : ¬ c.Lost us) : L.span c.span c'.span := by
  obtain ⟨ts, hts, hrest⟩ := h.rest
  cases hr : c.rest with
  | nil =>
    have hus : us = none := by_contra fun hu => hc ⟨hu, hr⟩
    rw [hr] at hts
    cases hts
    simpa [Cursor.span, hr, hrest, hus] using h.finish hus
  | cons t rest =>
    rw [hr] at hts
    cases hts with
    | cons ht _ => simpa [Cursor.span, hr, hrest] using ht.span

theorem atEnd (h : c.Like L N us c') (hc : ¬ c.Lost us) : c'.atEnd = c.atEnd := by
  obtain ⟨ts, hts, hrest⟩ := h.rest
  cases hr : c.rest with
  | nil =>
    have hus : us = none := by_contra fun hu => hc ⟨hu, hr⟩
    rw [hr] at hts
    cases hts
    simp [Cursor.atEnd, hr, hrest, hus]
  | cons t rest =>
    rw [hr] at hts
    cases hts
    simp [Cursor.atEnd, hr, hrest]

theorem rest_eq_nil (h : c.Like L N us c') (hc : ¬ c.Lost us) : c'.rest = [] ↔ c.rest = [] := by
  rw [← List.isEmpty_iff, ← List.isEmpty_iff]
  exact iff_of_eq (congrArg (· = true) (h.atEnd hc))

theorem length (h : c.Like L N us c') : c'.rest.length = c.rest.length + (us.getD []).length := by
  obtain ⟨ts, hts, hrest⟩ := h.rest
  rw [hrest, List.length_append, hts.length_eq]

/-- Both move past tokens that are alike. -/
theorem advance (h : c.Like L N us c') (hc : ¬ c.Lost us) : c.advance.Like L N us c'.advance := by
  obtain ⟨ts, hts, hrest⟩ := h.rest
  cases hr : c.rest with
  | nil =>
    have hus : us = none := by_contra fun hu => hc ⟨hu, hr⟩
    rw [hr] at hts
    cases hts
    subst hus
    simpa [Cursor.advance, hr, hrest] using h
  | cons t rest =>
    rw [hr] at hts
    cases hts with
    | @cons _ t' _ ts ht hts =>
      rw [Cursor.advance, Cursor.advance, hr, hrest]
      exact ⟨⟨ts, hts, rfl⟩, ht.span, h.finish, h.errors, h.nextId⟩

theorem reportHere (h : c.Like L N us c') (hc : ¬ c.Lost us) (p : SyntaxProblem) :
    (c.reportHere p).Like L N us (c'.reportHere p) :=
  ⟨h.rest, h.previous, h.finish,
    mem_push_errors h.errors ⟨by rw [h.atEnd hc], h.span hc⟩, h.nextId⟩

theorem reportAt (h : c.Like L N us c') (p : SyntaxProblem) {s s' : Span} (hs : L.span s s') :
    (c.reportAt p s).Like L N us (c'.reportAt p s') :=
  ⟨h.rest, h.previous, h.finish, mem_push_errors h.errors ⟨rfl, hs⟩, h.nextId⟩

end Like

end Cursor

/-! ### Readers -/

namespace Reader

variable {α β α' β' : Type} {C D : Prop} {r : Reader α} {r' : Reader α'} {c d c' d' : Cursor}
  {Q : α → α' → Cursor → Prop}

theorem bind_of_none {f : α → Reader β} (h : (r c).1 = none) : (r >>= f) c = (none, (r c).2) := by
  change Reader.bind r f c = _
  unfold Reader.bind
  split
  · rename_i hr
    rw [hr] at h
    cases h
  · rename_i hr
    rw [hr]

theorem bind_of_some {f : α → Reader β} {a : α} (h : (r c).1 = some a) :
    (r >>= f) c = f a (r c).2 := by
  change Reader.bind r f c = _
  unfold Reader.bind
  split
  · rename_i hr
    rw [hr] at h ⊢
    cases h
    rfl
  · rename_i hr
    rw [hr] at h
    cases h

theorem ask_bind (f : Cursor → α) (g : α → Reader β) (c : Cursor) : (ask f >>= g) c = g (f c) c :=
  rfl

theorem Keeps.bind {f : α → Reader β} (h : r.Keeps c)
    (hf : ∀ a, (r c).1 = some a → (f a).Keeps (r c).2) : (r >>= f).Keeps c := by
  cases hr : (r c).1 with
  | none =>
    have hb := bind_of_none (f := f) hr
    exact ⟨by rw [hb]; exact h.shorter, by rw [hb]; exact h.errors, fun _ => by
      rw [hb]; exact h.fails hr⟩
  | some a =>
    have hb := bind_of_some (f := f) hr
    have hfa := hf a hr
    refine ⟨?_, ?_, fun hn => ?_⟩
    · rw [hb]
      exact Nat.le_trans hfa.shorter h.shorter
    · rw [hb]
      exact Nat.le_trans h.errors hfa.errors
    · rw [hb] at hn ⊢
      exact Nat.lt_of_le_of_lt h.errors (hfa.fails hn)

theorem Ends.bind {f : α → Reader β} (h : r.Ends C c)
    (hf : ¬ C → ∀ a d, (r c) = (some a, d) → d.rest = [] → (f a).Ends D d) :
    (r >>= f).Ends D c := by
  have hfa : ∀ a, (r c).1 = some a → (f a).Ends D (r c).2 := fun a ha =>
    hf (fun hcl => by rw [h.failed hcl] at ha; cases ha) a _ (Prod.ext ha rfl) h.rest
  refine ⟨h.toKeeps.bind fun a ha => (hfa a ha).toKeeps, ?_, fun hcl => ?_⟩
  · cases hr : (r c).1 with
    | none =>
      rw [bind_of_none hr]
      exact h.rest
    | some a =>
      rw [bind_of_some hr]
      exact (hfa a hr).rest
  · cases hr : (r c).1 with
    | none => rw [bind_of_none hr]
    | some a =>
      rw [bind_of_some hr]
      exact (hfa a hr).failed hcl

/-! ### What readers do from one cursor on -/

theorem Ends.congr {r₁ : Reader α} (h : r.Ends C c) (hr : r₁ c = r c) : r₁.Ends C c := by
  refine ⟨⟨?_, ?_, ?_⟩, ?_, ?_⟩ <;> rw [hr]
  · exact h.shorter
  · exact h.errors
  · exact h.fails
  · exact h.rest
  · exact h.failed

theorem Twins.congr {r₁ : Reader α} {r₁' : Reader α'} (h : Twins L N us C r c r' c' Q)
    (hr : r₁ c = r c) (hr' : r₁' c' = r' c') : Twins L N us C r₁ c r₁' c' Q := by
  refine ⟨⟨?_, ?_, ?_⟩, ?_⟩
  · rw [hr]
    exact h.shorter
  · rw [hr]
    exact h.errors
  · rw [hr]
    exact h.fails
  · unfold Together
    rw [hr, hr']
    exact h.together

/-- A reader that fails at the end is all that counts. -/
theorem Ends.bind_closed {f : α → Reader β} (h : r.Ends True c) : (r >>= f).Ends C c :=
  h.bind fun hn => absurd trivial hn

theorem Ends.of_closed (h : r.Ends True c) : r.Ends C c :=
  ⟨h.toKeeps, h.rest, fun _ => h.failed trivial⟩

/-- A reader that starts lost stays so. -/
theorem Ends.twins (h : r.Ends C c) (hu : us ≠ none) : Twins L N us C r c r' c' Q :=
  ⟨h.toKeeps, .inl ⟨⟨hu, h.rest⟩, h.failed⟩⟩

namespace Twins

theorem imp {R : α → α' → Cursor → Prop} (h : Twins L N us C r c r' c' Q)
    (hq : ∀ a a' d, d.rest.length ≤ c.rest.length → Q a a' d → R a a' d) :
    Twins L N us C r c r' c' R := by
  refine ⟨h.toKeeps, h.together.imp id fun ht => ⟨ht.1, ht.2.imp id ?_⟩⟩
  rintro ⟨a, a', ha, ha', hqa⟩
  exact ⟨a, a', ha, ha', hq _ _ _ h.shorter hqa⟩

/-- A closed reader may be taken for an open one. -/
theorem opened (h : Twins L N us True r c r' c' Q) : Twins L N us C r c r' c' Q :=
  ⟨h.toKeeps, h.together.imp (fun hl => ⟨hl.1, fun _ => hl.2 trivial⟩) id⟩

/-- One piece after another. If the first one is open and lost, the second one starts at the end. -/
theorem bind {R : β → β' → Cursor → Prop} {f : α → Reader β} {f' : α' → Reader β'}
    (h : Twins L N us D r c r' c' Q) (hend : ¬ D → ∀ a d, d.rest = [] → (f a).Ends C d)
    (hf : ∀ a a' d d', d.Like L N us d' → d.rest.length ≤ c.rest.length → Q a a' d →
      Twins L N us C (f a) d (f' a') d' R) :
    Twins L N us C (r >>= f) c (r' >>= f') c' R := by
  obtain ⟨⟨hu, hrest⟩, hcl⟩ | ⟨hlike, hboth⟩ := h.together
  · have hr : r.Ends D c := ⟨h.toKeeps, hrest, hcl⟩
    exact (hr.bind fun hn a d _ hd => hend hn a d hd).twins hu
  · obtain ⟨hn, hn'⟩ | ⟨a, a', ha, ha', hq⟩ := hboth
    · have hb := bind_of_none (f := f) hn
      have hb' := bind_of_none (f := f') hn'
      refine ⟨h.toKeeps.bind fun a ha => ?_, .inr ⟨?_, .inl ⟨?_, ?_⟩⟩⟩
      · rw [hn] at ha
        cases ha
      · rwa [hb, hb']
      · rw [hb]
      · rw [hb']
    · have hb := bind_of_some (f := f) ha
      have hb' := bind_of_some (f := f') ha'
      have hfa := hf a a' _ _ hlike h.shorter hq
      have hkeeps : (r >>= f).Keeps c := h.toKeeps.bind fun b hab => by
        rw [ha] at hab
        cases hab
        exact hfa.toKeeps
      refine ⟨hkeeps, hfa.together.imp ?_ ?_⟩
      · rintro ⟨hl, hcl⟩
        rw [hb]
        exact ⟨hl, hcl⟩
      · rintro ⟨hl, ht⟩
        unfold Together
        rw [hb, hb']
        exact ⟨hl, ht⟩

/-- One piece after another that is closed. -/
theorem next {R : β → β' → Cursor → Prop} {f : α → Reader β} {f' : α' → Reader β'}
    (h : Twins L N us True r c r' c' Q)
    (hf : ∀ a a' d d', d.Like L N us d' → d.rest.length ≤ c.rest.length → Q a a' d →
      Twins L N us C (f a) d (f' a') d' R) :
    Twins L N us C (r >>= f) c (r' >>= f') c' R :=
  h.bind (fun hn => absurd trivial hn) hf

end Twins

/-! ### Single tokens -/

theorem length_advance (hc : c.rest ≠ []) : c.advance.rest.length < c.rest.length := by
  unfold Cursor.advance
  split
  · rename_i h
    exact absurd h hc
  · rename_i h
    simp [h]

@[simp] theorem errors_advance (c : Cursor) : c.advance.errors = c.errors := by
  unfold Cursor.advance
  split <;> rfl

theorem rest_ne_nil_of_kind (h : c.kind.isEof = false) : c.rest ≠ [] := by
  intro hr
  rw [Cursor.kind, hr] at h
  cases h

theorem rest_ne_nil_of_isSymbol {s : Symbol} (h : c.isSymbol s = true) : c.rest ≠ [] := by
  intro hr
  simp [Cursor.isSymbol, Cursor.kind, hr] at h

theorem rest_ne_nil_of_isKeyword {w : Keyword} (h : c.isKeyword w = true) : c.rest ≠ [] := by
  intro hr
  simp [Cursor.isKeyword, Cursor.kind, hr] at h

theorem not_lost (h : c.rest ≠ []) : ¬ c.Lost us := fun hl => h hl.2

theorem Keeps.of_some {a : α} (h : (r c).1 = some a) (hs : (r c).2.rest.length ≤ c.rest.length)
    (he : (r c).2.errors = c.errors) : r.Keeps c :=
  ⟨hs, Nat.le_of_eq (congrArg Array.size he).symm, fun hn => by rw [h] at hn; cases hn⟩

theorem Keeps.of_missing {p : SyntaxProblem} (hr : r c = (none, c.reportHere p)) : r.Keeps c := by
  have hsize : c.errors.size < (c.reportHere p).errors.size := by simp [Cursor.reportHere]
  refine ⟨?_, ?_, fun _ => ?_⟩ <;> rw [hr]
  · exact Nat.le_refl _
  · exact Nat.le_of_lt hsize
  · exact hsize

/-- What is missing at the end. -/
theorem Ends.of_missing {p : SyntaxProblem} (hr : r c = (none, c.reportHere p)) (hc : c.rest = []) :
    r.Ends C c := by
  refine ⟨.of_missing hr, ?_, fun _ => ?_⟩ <;> rw [hr]
  exact hc

namespace Twins

variable (h : c.Like L N us c')

include h

/-- Both take a token. -/
theorem of_token {a : α} {b : α'} (hr : r c = (some a, c.advance))
    (hr' : r' c' = (some b, c'.advance)) (hc : c.rest ≠ []) (hq : Q a b c.advance) :
    Twins L N us C r c r' c' Q := by
  have hlike := h.advance (not_lost hc)
  refine ⟨.of_some (a := a) ?_ ?_ ?_, .inr ⟨?_, .inr ⟨a, b, ?_, ?_, ?_⟩⟩⟩
  · rw [hr]
  · rw [hr]
    exact Nat.le_of_lt (length_advance hc)
  · rw [hr]
    exact errors_advance c
  · rwa [hr, hr']
  · rw [hr]
  · rw [hr']
  · rwa [hr]

/-- Both find the same problem. -/
theorem of_missing {p : SyntaxProblem} (hr : r c = (none, c.reportHere p))
    (hr' : r' c' = (none, c'.reportHere p)) (hc : ¬ c.Lost us) : Twins L N us C r c r' c' Q := by
  refine ⟨.of_missing hr, .inr ⟨?_, .inl ⟨?_, ?_⟩⟩⟩
  · rw [hr, hr']
    exact h.reportHere hc p
  · rw [hr]
  · rw [hr']

end Twins

/-! ### Primitive readers -/

theorem ends_pure {a : α} (hc : c.rest = []) : (pure a : Reader α).Ends False c :=
  ⟨.of_some rfl (Nat.le_refl _) rfl, hc, False.elim⟩

/-- At the end every symbol is missing. -/
theorem ends_expect (s : Symbol) (place : String) (hc : c.rest = []) : (expect s place).Ends C c :=
  .of_missing (p := .expectedSymbol s place) (by simp [expect, Cursor.isSymbol, Cursor.kind, hc]) hc

theorem ends_name (role : String) (hc : c.rest = []) : (name role).Ends C c :=
  .of_missing (p := .expectedName role) (by simp [name, Cursor.kind, hc]) hc

theorem ends_reportHere (p : SyntaxProblem) (hc : c.rest = []) : (report p).Ends False c :=
  ⟨⟨Nat.le_refl _, by simp [report, change, Cursor.reportHere], nofun⟩, hc, False.elim⟩

/-- A problem that is reported before a reader fails. -/
theorem ends_report (p : SyntaxProblem) (hc : c.rest = []) :
    (report p >>= fun _ => (fail : Reader α)).Ends C c := .of_missing (p := p) rfl hc

namespace Twins

section

variable (h : c.Like L N us c')

include h

theorem pure {a : α} {a' : α'} (hq : Q a a' c) : Twins L N us C (pure a) c (pure a') c' Q :=
  ⟨.of_some rfl (Nat.le_refl _) rfl, .inr ⟨h, .inr ⟨a, a', rfl, rfl, hq⟩⟩⟩

theorem site (hN : L.Numbers N) {s s' : Span} (hs : L.span s s') :
    Twins L N us C (Reader.site s) c (Reader.site s') c' fun t t' d => L.Site t t' ∧
    d.rest = c.rest :=
  ⟨.of_some rfl (Nat.le_refl _) rfl,
    .inr ⟨⟨h.rest, h.previous, h.finish, h.errors, hN.succ h.nextId⟩,
      .inr ⟨_, _, rfl, rfl, ⟨hN.id h.nextId, hs⟩, rfl⟩⟩⟩

theorem reportAt (p : SyntaxProblem) {s s' : Span} (hs : L.span s s') :
    Twins L N us C (change (·.reportAt p s)) c (change (·.reportAt p s')) c' fun _ _ d =>
      d.rest = c.rest :=
  ⟨⟨Nat.le_refl _, by simp [change, Cursor.reportAt], nofun⟩,
    .inr ⟨h.reportAt p hs, .inr ⟨_, _, rfl, rfl, rfl⟩⟩⟩

theorem reportHere (hc : ¬ c.Lost us) (p : SyntaxProblem) :
    Twins L N us C (report p) c (report p) c' fun _ _ d => d.rest = c.rest :=
  ⟨⟨Nat.le_refl _, by simp [report, change, Cursor.reportHere], nofun⟩,
    .inr ⟨h.reportHere hc p, .inr ⟨_, _, rfl, rfl, rfl⟩⟩⟩

theorem previous :
    Twins L N us C Reader.previous c Reader.previous c' fun s s' d => L.span s s' ∧ d = c :=
  ⟨.of_some rfl (Nat.le_refl _) rfl, .inr ⟨h, .inr ⟨_, _, rfl, rfl, h.previous, rfl⟩⟩⟩

theorem advance (hc : c.rest ≠ []) :
    Twins L N us C Reader.advance c Reader.advance c' fun s s' d => L.span s s' ∧
    d.rest.length < c.rest.length :=
  of_token h rfl rfl hc ⟨h.span (not_lost hc), length_advance hc⟩

theorem expect (s : Symbol) (place : String) :
    Twins L N us C (Reader.expect s place) c (Reader.expect s place) c'
      fun t t' d => L.span t t' ∧ d.rest.length < c.rest.length := by
  by_cases hl : c.Lost us
  · exact (ends_expect s place hl.2).twins hl.1
  · have hs : c'.isSymbol s = c.isSymbol s := by rw [Cursor.isSymbol, Cursor.isSymbol, h.kind hl]
    cases ht : c.isSymbol s with
    | true =>
      have hc := rest_ne_nil_of_isSymbol ht
      exact of_token h (by simp [Reader.expect, ht]) (by simp [Reader.expect, hs, ht]) hc
        ⟨h.span hl, length_advance hc⟩
    | false =>
      exact of_missing (p := .expectedSymbol s place) h (by simp [Reader.expect, ht])
        (by simp [Reader.expect, hs, ht]) hl

theorem name (role : String) :
    Twins L N us C (Reader.name role) c (Reader.name role) c'
      fun x x' d => L.Ident x x' ∧ d.rest.length < c.rest.length := by
  by_cases hl : c.Lost us
  · exact (ends_name role hl.2).twins hl.1
  · have hk := h.kind hl
    by_cases hx : ∃ x, c.kind = .identifier x
    · obtain ⟨x, hx⟩ := hx
      have hc : c.rest ≠ [] := rest_ne_nil_of_kind (by rw [hx]; rfl)
      exact of_token (a := ⟨x, c.span⟩) (b := ⟨x, c'.span⟩) h (by simp [Reader.name, hx])
        (by simp [Reader.name, hk, hx]) hc ⟨⟨rfl, h.span hl⟩, length_advance hc⟩
    · have hmiss : ∀ e : Cursor, (¬ ∃ x, e.kind = .identifier x) →
          Reader.name role e = (none, e.reportHere (.expectedName role)) := by
        intro e he
        unfold Reader.name
        split
        · rename_i x hx
          exact absurd ⟨x, hx⟩ he
        · rfl
      exact of_missing h (hmiss c hx) (hmiss c' (hk ▸ hx)) hl

/-- A problem that is reported before both fail. -/
theorem fail (p : SyntaxProblem) :
    Twins L N us C (do report p; (Reader.fail : Reader α)) c
      (do report p; (Reader.fail : Reader α')) c' Q := by
  by_cases hl : c.Lost us
  · exact (ends_report p hl.2).twins hl.1
  · exact of_missing (p := p) h rfl rfl hl

end

/-! ### Looking ahead -/

variable {γ : Type} {R : β → β' → Cursor → Prop}

/-- Both look at what comes next. -/
theorem peek {f : Cursor → γ} {g : γ → Reader β} {g' : γ → Reader β'}
    (hf : ¬ c.Lost us → f c' = f c) (hend : c.Lost us → (g (f c)).Ends C c)
    (hgo : ¬ c.Lost us → Twins L N us C (g (f c)) c (g' (f c)) c' R) :
    Twins L N us C (ask f >>= g) c (ask f >>= g') c' R := by
  by_cases hl : c.Lost us
  · have he : (ask f >>= g).Ends C c := (hend hl).congr rfl
    exact he.twins hl.1
  · have hr' : (ask f >>= g') c' = g' (f c) c' := by
      rw [← hf hl]
      rfl
    exact (hgo hl).congr rfl hr'

/-- Both look at what comes next, which need not be the same. -/
theorem look {f : Cursor → γ} {g : γ → Reader β} {g' : γ → Reader β'}
    (h : Twins L N us C (g (f c)) c (g' (f c')) c' R) :
    Twins L N us C (ask f >>= g) c (ask f >>= g') c' R := h.congr rfl rfl

/-- Both take the next token if it is the one that `f` looks for. -/
theorem takeIf {f : Cursor → Bool} {r : Reader Bool} {g : Bool → Reader β} {g' : Bool → Reader β'}
    (h : c.Like L N us c') (hr : ∀ c, r c = if f c then (some true, c.advance) else (some false, c))
    (hc : f c = true → c.rest ≠ []) (hf : f c' = f c)
    (hyes : ∀ d d', d.Like L N us d' → d.rest.length < c.rest.length →
      Twins L N us C (g true) d (g' true) d' R)
    (hno : Twins L N us C (g false) c (g' false) c' R) :
    Twins L N us C (r >>= g) c (r >>= g') c' R := by
  have hr' := hr c'
  rw [hf] at hr'
  cases hb : f c with
  | false =>
    rw [hb] at hr'
    have hr := hr c
    rw [hb] at hr
    exact hno.congr (bind_of_some (a := false) (by rw [hr]; rfl) |>.trans (by rw [hr]; rfl))
      (bind_of_some (a := false) (by rw [hr']; rfl) |>.trans (by rw [hr']; rfl))
  | true =>
    have hc := hc hb
    have ht : Twins L N us True r c r c' fun a a' d => a = true ∧ a' = true ∧
        d.rest.length < c.rest.length :=
      of_token (a := true) (b := true) h (by rw [hr, hb]; rfl) (by rw [hr', hb]; rfl) hc
        ⟨rfl, rfl, length_advance hc⟩
    refine ht.next fun a a' d d' hd _ hq => ?_
    obtain ⟨rfl, rfl, hlt⟩ := hq
    exact hyes d d' hd hlt

/-- Both take the symbol `s` if it comes next. -/
theorem eat {s : Symbol} {g : Bool → Reader β} {g' : Bool → Reader β'} (h : c.Like L N us c')
    (hend : c.Lost us → (g false).Ends C c)
    (hyes : ∀ d d', d.Like L N us d' → d.rest.length < c.rest.length →
      Twins L N us C (g true) d (g' true) d' R)
    (hno : ¬ c.Lost us → Twins L N us C (g false) c (g' false) c' R) :
    Twins L N us C (Reader.eat s >>= g) c (Reader.eat s >>= g') c' R := by
  by_cases hl : c.Lost us
  · have hb : c.isSymbol s = false := by simp [Cursor.isSymbol, Cursor.kind, hl.2]
    have he : (Reader.eat s >>= g) c = g false c := by
      rw [bind_of_some (a := false)] <;> simp [Reader.eat, hb]
    exact ((hend hl).congr he).twins hl.1
  · refine takeIf (f := (·.isSymbol s)) h (fun c => ?_) rest_ne_nil_of_isSymbol ?_ hyes (hno hl)
    · rfl
    · rw [Cursor.isSymbol, Cursor.isSymbol, h.kind hl]

end Twins

end Reader

end Lox
