import Mathlib
import Lox.Proofs.Number.Shortest
import Lox.Proofs.Token.Lexemes
/-!
# Tokens are read back from their texts

The text that a token is shown as is a lexeme of that token: of a number the digits of its
shortest decimal, which is read as that number again. A blank ends every lexeme, so texts of
tokens with a blank after each are cut where one ends and the next begins, whatever other blanks
and comments there are.

That a double is the one that its bits stand for is `Float.ofBits_toBits`, which comes with Mathlib
as a whole but with none of its files.
-/

namespace Lox

/-! ### The texts of numbers -/

section

open Number

/-- Digits without a point are a number. -/
theorem Lexeme.of_whole {ds : List Char} {d : Decimal} (hne : ds ≠ [])
    (hds : ∀ c ∈ ds, c.isDigit = true) (hvalue : (Nat.ofDigitChars 10 ds 0 : ℚ) = d.value) :
    Lexeme ds (.number d.toFloat) := by
  have hfloat : Piece.numberOfDigits ds [] = d.toFloat := by
    rw [Piece.numberOfDigits, Decimal.toFloat, Decimal.toFloat]
    refine congrArg (fun bits => Float.ofBits (UInt64.ofNat bits)) (Decimal.nearestBits_congr ?_)
    rw [← hvalue, Decimal.value]
    simp
  exact hfloat ▸ .whole hne hds

/-- Digits before and after a point are a number. -/
theorem Lexeme.of_fraction {ds fs : List Char} {d : Decimal} (hne : ds ≠ [])
    (hds : ∀ c ∈ ds, c.isDigit = true) (hne' : fs ≠ []) (hfs : ∀ c ∈ fs, c.isDigit = true)
    (hcoefficient : Nat.ofDigitChars 10 (ds ++ fs) 0 = d.coefficient)
    (hexponent : d.exponent = -Int.ofNat fs.length) :
    Lexeme (ds ++ '.' :: fs) (.number d.toFloat) := by
  have hfloat : Piece.numberOfDigits ds fs = d.toFloat := by
    rw [Piece.numberOfDigits, hcoefficient, ← hexponent]
  exact hfloat ▸ .fraction hne hds hne' hfs

/-- The digits of a decimal, with the point at its place. -/
theorem Lexeme.placePoint (d : Decimal) :
    Lexeme (Layout.placePoint (Nat.toDigits 10 d.coefficient)
      (Int.ofNat (Nat.toDigits 10 d.coefficient).length + d.exponent)) (.number d.toFloat) := by
  have hne : Nat.toDigits 10 d.coefficient ≠ [] := Nat.toDigits_ne_nil
  have hdigits : ∀ c ∈ Nat.toDigits 10 d.coefficient, c.isDigit = true := fun c hc =>
    Nat.isDigit_of_mem_toDigits (by decide) (by decide) hc
  have hvalue : Nat.ofDigitChars 10 (Nat.toDigits 10 d.coefficient) 0 = d.coefficient :=
    Nat.ofDigitChars_ten_toDigits
  generalize Nat.toDigits 10 d.coefficient = digits at hne hdigits hvalue
  have hlength := List.length_pos_iff.mpr hne
  have hzeros : ∀ n, ∀ c ∈ List.replicate n '0', c.isDigit = true := fun n c hc => by
    rw [List.eq_of_mem_replicate hc]
    rfl
  unfold Layout.placePoint
  split
  · rename_i hpoint
    rw [List.append_assoc]
    change Lexeme (['0'] ++ '.' :: (_ ++ digits)) _
    refine .of_fraction (List.cons_ne_nil _ _) (by simp)
      (List.append_ne_nil_of_right_ne_nil _ hne) ?_ ?_ ?_
    · exact List.forall_mem_append.mpr ⟨hzeros _, hdigits⟩
    · rw [List.singleton_append, Nat.ofDigitChars_cons, Nat.ofDigitChars_append,
        Nat.ofDigitChars_replicate_zero]
      simpa using hvalue
    · rw [List.length_append, List.length_replicate]
      simp only [Int.ofNat_eq_natCast] at hpoint ⊢
      omega
  split
  · rename_i hpoint hlt
    simp only [Int.ofNat_eq_natCast] at hpoint hlt ⊢
    generalize hn : ((digits.length : Int) + d.exponent).toNat = n at hlt
    have hsplit : digits.take n ++ digits.drop n = digits := List.take_append_drop n digits
    rw [List.append_assoc, List.singleton_append]
    refine .of_fraction ?_ ?_ ?_ ?_ (by rw [hsplit, hvalue]) ?_
    · exact List.length_pos_iff.mp (by rw [List.length_take]; omega)
    · exact fun c hc => hdigits c (List.mem_of_mem_take hc)
    · exact List.length_pos_iff.mp (by rw [List.length_drop]; omega)
    · exact fun c hc => hdigits c (List.mem_of_mem_drop hc)
    · rw [List.length_drop]
      simp only [Int.ofNat_eq_natCast]
      omega
  · rename_i hpoint hlt
    simp only [Int.ofNat_eq_natCast] at hpoint hlt ⊢
    obtain ⟨n, hn⟩ : ∃ n : Nat, d.exponent = n := ⟨d.exponent.toNat, by omega⟩
    have hfill : ((digits.length : Int) + d.exponent).toNat - digits.length = n := by omega
    rw [hfill]
    refine .of_whole (List.append_ne_nil_of_left_ne_nil hne _)
      (List.forall_mem_append.mpr ⟨hdigits, hzeros _⟩) ?_
    rw [Nat.ofDigitChars_append, Nat.ofDigitChars_replicate_zero, hvalue, Decimal.value, hn]
    push_cast
    rw [zpow_natCast, mul_comm]

theorem Number.Decimal.toFloat_of_nearestBits {d : Decimal} {x : Float}
    (h : d.nearestBits = x.toBits.toNat) : d.toFloat = x := by
  rw [toFloat, h, UInt64.ofNat_toNat, Float.ofBits_toBits]

/-- The text of a finite double of sign zero is read as that double. -/
theorem Lexeme.text_number {x : Float} (h : x.toBits.toNat < infinityBits) :
    Lexeme (plain.text x).toList (.number x) := by
  have hsign : infinityBits < signBit := by decide
  have hbits : x.toBits.toNat % signBit = x.toBits.toNat := Nat.mod_eq_of_lt (h.trans hsign)
  have hpositive : ¬ (signBit ≤ x.toBits.toNat ∧ (plain.signedZero = true ∨ x.toBits.toNat ≠ 0)) :=
    fun hnegative => absurd hnegative.1 (Nat.not_le.mpr (h.trans hsign))
  rw [Layout.text]
  simp only [hbits]
  rw [if_neg (Nat.not_lt.mpr h.le), if_neg hpositive, String.toList_ofList, Layout.magnitude]
  split
  · rename_i hzero
    have hx : (⟨0, 0⟩ : Decimal).toFloat = x :=
      Decimal.toFloat_of_nearestBits (by rw [hzero]; decide)
    exact hx ▸ .of_whole (List.cons_ne_nil _ _) (by simp)
      (by simp [Decimal.value, Nat.ofDigitChars_cons])
  rename_i hzero
  rw [if_neg h.ne]
  have hx : (shortest x.toBits.toNat).toFloat = x :=
    Decimal.toFloat_of_nearestBits (nearestBits_shortest (Nat.pos_of_ne_zero hzero) h)
  have htext := placePoint (shortest x.toBits.toNat)
  rw [hx] at htext
  exact htext

end

/-! ### The texts of tokens -/

namespace TokenKind

/-- The tokens that are shown as they are written: of names those that are not reserved, of strings
those without a quote, of numbers those that are finite with sign zero. -/
def Printable : TokenKind → Prop
  | number x => x.toBits.toNat < Number.infinityBits
  | string s => '"' ∉ s.toList
  | identifier s =>
    (∃ c cs, s.toList = c :: cs ∧ Piece.isLetter c = true ∧
      ∀ d ∈ cs, Piece.isLetterOrDigit d = true) ∧
      ∀ w : Keyword, w.text ≠ s
  | keyword _ | symbol _ => True
  | eof => False

/-- A token is shown as a text that has its form. -/
theorem Printable.lexeme {k : TokenKind} (h : k.Printable) : Lexeme k.text.toList k := by
  cases k with
  | number x => exact .text_number h
  | string s =>
    have hs := Lexeme.string h
    rw [String.ofList_toList] at hs
    rw [text, String.toList_append, String.toList_append, List.append_assoc]
    exact hs
  | identifier s =>
    obtain ⟨⟨c, cs, hs, hc, hcs⟩, hw⟩ := h
    have hname :=
      Lexeme.identifier hc hcs fun w hw' => hw w (String.toList_inj.mp (hw'.trans hs.symm))
    rw [← hs, String.ofList_toList] at hname
    exact hname
  | keyword w => exact .keyword w
  | symbol s => exact .symbol s
  | eof => exact h.elim

end TokenKind

/-! ### A blank ends a lexeme -/

namespace Lexeme

variable {v w cs : List Char} {j k : TokenKind}

/-- Blanks and quotes are in strings only, and quotes only at their ends. -/
theorem plain_or_quoted (h : Lexeme w k) :
    (∀ c ∈ w, Piece.isBlank c = false ∧ c ≠ '"') ∨
    ∃ body, '"' ∉ body ∧ w = '"' :: (body ++ ['"']) := by
  have hword : ∀ c, Piece.isLetterOrDigit c = true →
      Piece.isBlank c = false ∧ c ≠ '"' := fun c hc =>
    (Piece.plain_of_isLetterOrDigit hc).imp_right And.left
  have hdigit : ∀ c : Char, c.isDigit = true → Piece.isBlank c = false ∧ c ≠ '"' := fun c hc =>
    hword c (Piece.isLetterOrDigit_iff.mpr (.inr hc))
  have hletters : ∀ {c : Char} {cs : List Char}, Piece.isLetter c = true →
      (∀ d ∈ cs, Piece.isLetterOrDigit d = true) →
      ∀ d ∈ c :: cs, Piece.isBlank d = false ∧ d ≠ '"' := fun hc hcs =>
    List.forall_mem_cons.mpr ⟨hword _ (Piece.isLetterOrDigit_iff.mpr (.inl hc)),
      fun d hd => hword d (hcs d hd)⟩
  cases h with
  | symbol s =>
    obtain ⟨c, t, ht, hs⟩ := s.text_forms
    obtain ⟨hblank, hquote, -, -⟩ := Piece.plain_of_ofChar? ht
    refine .inl ?_
    obtain ⟨hs, -⟩ | ⟨hs, -⟩ := hs <;> rw [hs]
    · exact List.forall_mem_cons.mpr ⟨⟨hblank, hquote⟩, nofun⟩
    · exact List.forall_mem_cons.mpr ⟨⟨hblank, hquote⟩,
        List.forall_mem_singleton.mpr ⟨rfl, by decide⟩⟩
  | keyword w =>
    obtain ⟨c, cs, hw, hc, hcs⟩ := keyword_letters w
    exact .inl (hw ▸ hletters hc hcs)
  | identifier hc hcs => exact .inl (hletters hc hcs)
  | string hbody => exact .inr ⟨_, hbody, rfl⟩
  | whole _ hds => exact .inl fun c h => hdigit c (hds c h)
  | fraction _ hds _ hfs =>
    exact .inl (List.forall_mem_append.mpr ⟨fun c h => hdigit c (hds c h),
      List.forall_mem_cons.mpr ⟨by decide, fun c h => hdigit c (hfs c h)⟩⟩)

/-- No string goes on after the quote that closes it. -/
theorem quoted_inj {b b' : List Char} (hb : '"' ∉ b) (hb' : '"' ∉ b')
    (h : b ++ ['"'] <+: b' ++ ['"']) : b = b' := by
  obtain ⟨ds, hds⟩ := h
  calc b = (b ++ (['"'] ++ ds)).takeWhile (· ≠ '"') := (takeWhile_until hb (by simp)).symm
    _ = (b' ++ ['"']).takeWhile (· ≠ '"') := by rw [← List.append_assoc, hds]
    _ = b' := takeWhile_until hb' (by simp)

/-- Of two lexemes that a text begins with the longer has no blank after the shorter. -/
theorem not_blank_after (hw : Lexeme w k) {c : Char} {ds : List Char}
    (hv : Lexeme (w ++ c :: ds) j) : Piece.isBlank c = false := by
  -- A lexeme with a blank in it is a string, so it cannot go on after the quote that closes
  -- what it begins with.
  rcases hv.plain_or_quoted with hplain | ⟨b', hb', heq⟩
  · exact (hplain c (by simp)).1
  rcases hw.plain_or_quoted with hplain | ⟨b, hb, rfl⟩
  · obtain ⟨d, w, rfl⟩ := List.exists_cons_of_ne_nil hw.ne_nil
    exact absurd (List.cons_eq_cons.mp heq).1 (hplain d List.mem_cons_self).2
  · have htail : b ++ ['"'] ++ c :: ds = b' ++ ['"'] := (List.cons_eq_cons.mp heq).2
    obtain rfl := quoted_inj hb hb' ⟨_, htail⟩
    simp at htail

/-- A lexeme with a blank or nothing after it is not part of a longer one. -/
theorem longest_of_blank (h : Lexeme w k) (hcs : ∀ c ∈ cs.head?, Piece.isBlank c = true) :
    Longest w k (w ++ cs) where
  lexeme := h
  starts := List.prefix_append w cs
  longest v j hv hstarts := by
    by_contra hlt
    obtain ⟨ds, rfl⟩ :=
      List.prefix_of_prefix_length_le (List.prefix_append w cs) hstarts (Nat.le_of_not_le hlt)
    rw [List.prefix_append_right_inj] at hstarts
    cases ds with
    | nil => simp at hlt
    | cons c ds =>
      obtain ⟨rest, rfl⟩ := hstarts
      have hblank := hcs c rfl
      rw [h.not_blank_after hv] at hblank
      cases hblank

/-- Two slashes are not a lexeme, nor the beginning of one. -/
theorem eq_nil_of_slash (h : Lexeme ('/' :: v) k) : v = [] := by
  generalize hw : '/' :: v = w at h
  cases h with
  | symbol s =>
    obtain ⟨c, t, ht, ⟨hs, -⟩ | ⟨hs, heq⟩⟩ := s.text_forms
    · exact (List.cons_eq_cons.mp (hw.trans hs)).2
    · obtain ⟨rfl, -⟩ := List.cons_eq_cons.mp (hw.trans hs)
      cases ht
      cases heq
  | keyword w => cases w <;> cases hw
  | identifier hc =>
    obtain ⟨rfl, -⟩ := List.cons_eq_cons.mp hw
    cases hc
  | string => cases hw
  | whole _ hds =>
    subst hw
    cases hds '/' List.mem_cons_self
  | @fraction ds fs hne hds =>
    obtain ⟨d, ds, rfl⟩ := List.exists_cons_of_ne_nil hne
    obtain ⟨rfl, -⟩ := List.cons_eq_cons.mp hw
    cases hds '/' List.mem_cons_self

theorem not_comment_of_blank (h : Lexeme w k) (hcs : ∀ c ∈ cs.head?, Piece.isBlank c = true) :
    ¬ ['/', '/'] <+: w ++ cs := by
  intro hstarts
  obtain ⟨c, w, rfl⟩ := List.exists_cons_of_ne_nil h.ne_nil
  obtain ⟨rfl, hrest⟩ := List.cons_prefix_cons.mp hstarts
  obtain rfl := h.eq_nil_of_slash
  obtain ⟨ds, rfl⟩ := hrest
  cases hcs '/' rfl

end Lexeme

/-! ### Texts of tokens with separators -/

/-- Blanks and comments, each comment with the line feed that ends it. -/
inductive Filler : List Char → Prop where
  | nil : Filler []
  | blank {c cs} : Piece.isBlank c = true → Filler cs → Filler (c :: cs)
  | comment {body cs} : '\n' ∉ body → Filler cs → Filler ('/' :: '/' :: body ++ '\n' :: cs)

/-- What stands between two tokens: a blank, and any blanks and comments. -/
def Separator (s : List Char) : Prop := ∃ c cs, s = c :: cs ∧ Piece.isBlank c = true ∧ Filler cs

/-- The texts of the tokens, one after the other, with a separator between any two neighbours. -/
inductive Spaced : List TokenKind → List Char → Prop where
  | nil : Spaced [] []
  | last (k : TokenKind) : Spaced [k] k.text.toList
  | next {j ks s cs} (k : TokenKind) : Separator s → Spaced (j :: ks) cs →
    Spaced (k :: j :: ks) (k.text.toList ++ (s ++ cs))

/-- The text has an account without errors, in which the tokens are `ks`. -/
def Legible (cs : List Char) (ks : List TokenKind) : Prop :=
  ∃ ps, Piece.Accounts cs ps ∧ ∀ p, (Lexed.ofPieces p ps).errors = [] ∧
    (Lexed.ofPieces p ps).tokens.map Token.kind = ks ++ [.eof]

namespace Legible

variable {cs s w : List Char} {c : Char} {k : TokenKind} {ks : List TokenKind}

theorem nil : Legible [] [] := ⟨[], .nil, fun _ => ⟨rfl, rfl⟩⟩

theorem blank (hc : Piece.isBlank c = true) (h : Legible cs ks) : Legible (c :: cs) ks := by
  obtain ⟨ps, hps, hread⟩ := h
  exact ⟨_, .blank hc hps, fun _ => hread _⟩

theorem comment {body : List Char} (hbody : '\n' ∉ body) (h : Legible cs ks) :
    Legible ('/' :: '/' :: body ++ '\n' :: cs) ks := by
  obtain ⟨ps, hps, hread⟩ := h.blank (c := '\n') rfl
  exact ⟨_, .comment hbody (by simp) hps, fun _ => hread _⟩

theorem token (hw : Lexeme w k) (hcs : ∀ c ∈ cs.head?, Piece.isBlank c = true) (h : Legible cs ks) :
    Legible (w ++ cs) (k :: ks) := by
  obtain ⟨ps, hps, hread⟩ := h
  refine ⟨_, .token (hw.longest_of_blank hcs) (hw.not_comment_of_blank hcs) hps, fun p => ?_⟩
  obtain ⟨herrors, htokens⟩ := hread (p.afterAll w)
  exact ⟨herrors, congrArg (List.cons k) htokens⟩

private theorem filler (hs : Filler s) (h : Legible cs ks) : Legible (s ++ cs) ks := by
  induction hs with
  | nil => exact h
  | blank hc _ ih => exact ih.blank hc
  | comment hbody _ ih =>
    rw [List.append_assoc]
    exact ih.comment hbody

private theorem of_spaced (h : Spaced ks cs) (hks : ∀ k ∈ ks, k.Printable) : Legible cs ks := by
  induction h with
  | nil => exact .nil
  | last k =>
    have hk := (hks k List.mem_cons_self).lexeme
    rw [← List.append_nil k.text.toList]
    exact nil.token hk nofun
  | next k hs _ ih =>
    obtain ⟨hk, hks⟩ := List.forall_mem_cons.mp hks
    obtain ⟨c, cs, rfl, hc, hfiller⟩ := hs
    refine token hk.lexeme ?_ (((ih hks).filler hfiller).blank hc)
    rintro _ ⟨⟩
    exact hc

end Legible

/-- Tokens written with separators between them are read back, without errors and with
the mark at the end. -/
theorem Lexed.ofText_spaced {ks : List TokenKind} {text : String} (h : Spaced ks text.toList)
    (hks : ∀ k ∈ ks, k.Printable) :
    (ofText text).errors = [] ∧ (ofText text).tokens.map Token.kind = ks ++ [.eof] := by
  obtain ⟨ps, hps, hread⟩ := Legible.of_spaced h hks
  rw [ofText, ← hps.eq_all]
  exact hread .start

def halved : List TokenKind :=
  [.identifier "_half", .symbol .slash, .string "// é\nkept", .number 0.5, .symbol .bangEq,
    .identifier "whileTrue"]

def halvedText : String := "_half /\t// no \"quotient\"\n//\n \"// é\nkept\" 0.5\r\n!=\nwhileTrue"

theorem Lexed.ofText_spaced_halved :
    (Spaced halved halvedText.toList ∧ ∀ k ∈ halved, k.Printable) ∧
    (ofText halvedText).errors = [] ∧ (ofText halvedText).tokens.map Token.kind =
      halved ++ [.eof] := by
  have hempty := @Filler.comment [] _ (by decide) (.blank (c := ' ') rfl .nil)
  have hcomments := @Filler.comment " no \"quotient\"".toList _ (by decide) hempty
  obtain ⟨cs, hcs, hspaced⟩ : ∃ cs, cs = halvedText.toList ∧ Spaced halved cs := by
    refine ⟨_, ?_, .next _ ⟨' ', [], rfl, rfl, .nil⟩ (.next _ ⟨'\t', _, rfl, rfl, hcomments⟩
      (.next _ ⟨' ', [], rfl, rfl, .nil⟩ (.next _ ⟨'\r', ['\n'], rfl, rfl, .blank rfl .nil⟩
        (.next _ ⟨'\n', [], rfl, rfl, .nil⟩ (.last _)))))⟩
    decide +kernel
  rw [hcs] at hspaced
  have hhalf : (TokenKind.identifier "_half").Printable :=
    ⟨⟨'_', "half".toList, rfl, rfl, List.all_eq_true.mp rfl⟩, by rintro ⟨⟩ <;> decide⟩
  have htrue : (TokenKind.identifier "whileTrue").Printable :=
    ⟨⟨'w', "hileTrue".toList, rfl, rfl, List.all_eq_true.mp rfl⟩, by rintro ⟨⟩ <;> decide⟩
  have hstring : '"' ∉ "// é\nkept".toList := by decide
  have hnumber : (0.5 : Float).toBits.toNat < Number.infinityBits := by decide +kernel
  have hks : ∀ k ∈ halved, k.Printable := by
    simp only [halved, List.forall_mem_cons]
    exact ⟨hhalf, trivial, hstring, hnumber, trivial, htrue, nofun⟩
  exact ⟨⟨hspaced, hks⟩, ofText_spaced hspaced hks⟩

end Lox
