import Mathlib.Data.List.TakeWhile
import Lox.Token.Scan
import Lox.Source.File
import Lox.Proofs.Reading.Statement
/-!
# Positions in a text

Every piece of a text is what the rest of the text begins with, so tokens and lexical errors start
at positions of the text, which lie on lines that the text has. No identifier is a reserved word.
-/

namespace Lox

/-! ### Lines -/

theorem Position.line_after (p : Position) (c : Char) :
    (p.after c).line = p.line + if c = '\n' then 1 else 0 := by
  unfold after
  split <;> rfl

theorem Position.line_afterAll (p : Position) (cs : List Char) :
    (p.afterAll cs).line = p.line + cs.count '\n' := by
  induction cs generalizing p with
  | nil => rfl
  | cons c cs ih =>
    rw [afterAll_cons, ih, line_after, List.count_cons]
    simp only [beq_iff_eq]
    omega

theorem length_splitLines (cs : List Char) : (splitLines cs).length = cs.count '\n' + 1 := by
  induction cs with
  | nil => rfl
  | cons c cs ih =>
    rw [splitLines, List.count_cons]
    by_cases hc : c = '\n'
    · simp [hc, ih]
    · rw [if_neg hc]
      split
      · rename_i h
        simp [h] at ih
      · rename_i l ls h
        simp [h] at ih
        simp [hc, ih]

/-- A position in the text `cs` that stands at `p`: it follows something that the
text begins with. -/
def Position.InText (p : Position) (cs : List Char) (q : Position) : Prop :=
  ∃ ds, ds <+: cs ∧ q = p.afterAll ds

theorem Position.InText.start (p : Position) (cs : List Char) : p.InText cs p :=
  ⟨[], List.nil_prefix, rfl⟩

theorem Position.InText.rest {p q : Position} {ds cs : List Char}
    (h : (p.afterAll ds).InText cs q) : p.InText (ds ++ cs) q := by
  obtain ⟨es, hes, rfl⟩ := h
  exact ⟨ds ++ es, (List.prefix_append_right_inj ds).mpr hes, (p.afterAll_append ds es).symm⟩

theorem SourceFile.line?_of_inText {f : SourceFile} {p : Position}
    (h : Position.start.InText f.text.toList p) : ∃ l, f.line? p.line = some l := by
  obtain ⟨cs, hcs, rfl⟩ := h
  have hn : cs.count '\n' ≤ f.text.toList.count '\n' := hcs.sublist.count_le _
  have hl : cs.count '\n' < f.lines.length := by
    rw [SourceFile.lines, length_splitLines]
    omega
  rw [SourceFile.line?, Position.line_afterAll]
  simp [Position.start, List.getElem?_eq_getElem hl]

/-! ### Pieces -/

namespace Piece

private theorem fraction?_prefix {cs fs : List Char} (h : fraction? cs = some fs) :
    '.' :: fs <+: cs := by
  unfold fraction? at h
  split at h
  · rename_i d ds
    split at h
    · cases h
      exact (List.prefix_cons_inj '.').mpr ((List.prefix_cons_inj d).mpr (List.takeWhile_prefix _))
    · cases h
  · cases h

theorem number_prefix (c : Char) (cs : List Char) : (number c cs).text <+: c :: cs := by
  simp only [number]
  split
  · rename_i fs hf
    have h := fraction?_prefix hf
    have hcs := List.takeWhile_append_dropWhile (p := Char.isDigit) (l := cs)
    rw [List.cons_append, List.prefix_cons_inj]
    conv => rhs; rw [← hcs]
    exact (List.prefix_append_right_inj _).mpr h
  · exact (List.prefix_cons_inj c).mpr (List.takeWhile_prefix _)

private theorem word_prefix (c : Char) (cs : List Char) : (word c cs).text <+: c :: cs := by
  simp only [word]
  split <;> exact (List.prefix_cons_inj c).mpr (List.takeWhile_prefix _)

private theorem string_prefix (cs : List Char) : (string cs).text <+: '"' :: cs := by
  simp only [string]
  split
  · rename_i h
    rw [List.cons_append, List.prefix_cons_inj]
    have hcs := List.takeWhile_append_dropWhile (p := (· ≠ '"')) (l := cs)
    cases hd : cs.dropWhile (· ≠ '"') with
    | nil =>
      rw [hd, List.append_nil] at hcs
      rw [hcs] at h
      exact absurd h (Nat.lt_irrefl _)
    | cons d ds =>
      have hq : d = '"' := by
        have hh := List.head?_dropWhile_not (· ≠ '"') cs
        rw [hd] at hh
        simpa using hh
      conv => rhs; rw [← hcs, hd, hq]
      exact (List.prefix_append_right_inj _).mpr ⟨ds, rfl⟩
  · exact List.prefix_refl _

private theorem symbol_prefix (c : Char) (s : Symbol) (cs : List Char) :
    (symbol c s cs).text <+: c :: cs := by
  unfold symbol
  split
  · rename_i h
    obtain ⟨ds, rfl⟩ := List.head?_eq_some_iff.mp h
    exact ⟨ds, rfl⟩
  · exact ⟨cs, rfl⟩

/-- The first piece of a text is what the text begins with. -/
theorem first_prefix (c : Char) (cs : List Char) : (first c cs).text <+: c :: cs := by
  unfold first
  split
  · exact ⟨cs, rfl⟩
  · split
    · rename_i h
      rw [h.1]
      exact (List.prefix_cons_inj '/').mpr (List.takeWhile_prefix _)
    · split
      · rename_i h
        rw [h]
        exact string_prefix cs
      · split
        · exact number_prefix c cs
        · split
          · exact word_prefix c cs
          · split
            · exact symbol_prefix c _ cs
            · exact ⟨cs, rfl⟩

private theorem plain_of_ofText? {x : String} (h : Keyword.ofText? x = none) : Plain x := by
  constructor <;> rintro rfl <;> exact absurd h (by decide)

/-- An identifier is not a reserved word. -/
theorem plain_first {c : Char} {cs : List Char} {x : String}
    (h : (first c cs).meaning = .token (.identifier x)) : Plain x := by
  simp only [first, number, string, comment, symbol] at h
  split at h
  · cases h
  split at h
  · cases h
  split at h
  · split at h <;> cases h
  split at h
  · split at h <;> cases h
  split at h
  · simp only [word] at h
    split at h
    · cases h
    · rename_i hw
      cases h
      exact plain_of_ofText? hw
  split at h
  · split at h <;> cases h
  · cases h

end Piece

/-! ### Tokens -/

/-- What holds of the tokens and the errors of the text `cs` that stands at `p`. -/
structure Lexed.Good (p : Position) (cs : List Char) (l : Lexed) : Prop where
  tokens : ∀ t ∈ l.tokens, t.Ok (p.InText cs) Plain
  errors : ∀ e ∈ l.errors, p.InText cs e.span.first

namespace Lexed

theorem Good.rest {p : Position} {ds cs : List Char} {l : Lexed} (h : l.Good (p.afterAll ds) cs) :
    l.Good p (ds ++ cs) where
  tokens t ht := ⟨(h.tokens t ht).start.rest, (h.tokens t ht).named⟩
  errors e he := (h.errors e he).rest

theorem good_end (p : Position) (cs : List Char) : (ofPieces p []).Good p cs where
  tokens t ht := by
    obtain rfl := List.mem_singleton.mp ht
    exact ⟨.start p cs, fun x hx => by cases hx⟩
  errors e he := by cases he

private theorem good_split (fuel : Nat) (p : Position) (cs : List Char) :
    (ofPieces p (Piece.split fuel cs)).Good p cs := by
  induction fuel generalizing p cs with
  | zero => cases cs <;> exact good_end p _
  | succ fuel ih =>
    cases cs with
    | nil => exact good_end p _
    | cons c cs =>
      obtain ⟨rest, hrest⟩ := Piece.first_prefix c cs
      have hr := (ih (p.afterAll (Piece.first c cs).text) rest).rest
      have hd : (c :: cs).drop (Piece.first c cs).text.length = rest := by
        rw [← hrest, List.drop_left]
      rw [hrest] at hr
      rw [Piece.split, hd, ofPieces]
      split
      · exact hr
      · rename_i kind hk
        refine ⟨fun t ht => ?_, hr.errors⟩
        rcases List.mem_cons.mp ht with rfl | ht
        · exact ⟨.start p _, fun x hx => Piece.plain_first (hk.trans (congrArg Meaning.token hx))⟩
        · exact hr.tokens t ht
      · refine ⟨hr.tokens, fun e he => ?_⟩
        rcases List.mem_cons.mp he with rfl | he
        · exact .start p _
        · exact hr.errors e he

theorem good_ofText (s : String) : (ofText s).Good .start s.toList := good_split _ _ _

/-- The mark at the end is there. -/
theorem exists_eof (p : Position) (pieces : List Piece) :
    ∃ t ∈ (ofPieces p pieces).tokens, t.kind.isEof = true := by
  induction pieces generalizing p with
  | nil => exact ⟨_, List.mem_singleton_self _, rfl⟩
  | cons piece pieces ih =>
    obtain ⟨t, ht, he⟩ := ih (p.afterAll piece.text)
    rw [ofPieces]
    split
    · exact ⟨t, ht, he⟩
    · exact ⟨t, List.mem_cons_of_mem _ ht, he⟩
    · exact ⟨t, ht, he⟩

end Lexed

/-- A cursor on tokens that end with a mark is as good as the tokens are. -/
theorem Cursor.ok_ofTokens {P : Position → Prop} {N : String → Prop} {tokens : List Token}
    (h : ∀ t ∈ tokens, t.Ok P N)
    (he : ∃ t ∈ tokens, t.kind.isEof = true) (firstId : Nat) :
    (Cursor.ofTokens tokens firstId).Ok P N where
  tokens t ht := h t (List.takeWhile_subset _ ht)
  finish := by
    obtain ⟨e, hm, he⟩ := he
    rw [ofTokens]
    dsimp only
    split
    · rename_i t ts hd
      have ht : t ∈ tokens := List.dropWhile_subset _ (hd ▸ List.mem_cons_self)
      exact (h t ht).start
    · rename_i hd
      have hn := List.dropWhile_eq_nil_iff.mp hd e hm
      simp [he] at hn
  errors e he := by simp [ofTokens] at he

end Lox
