import Lox.Number.Layout
import Lox.Proofs.Number.Digits
import Lox.Proofs.Token.Lexemes
/-!
# What the text of a number denotes

A text of digits denotes a number, with a point among the digits or an exponent after them. A
printed decimal and the text with an exponent that it is printed from denote the decimal, and the
printed text has nothing in it that could be left out.
-/

namespace Lox.Number

/-- The number that a text denotes: digits with or without a point, a sign before them and an
exponent after them. -/
def valueOfText? (text : List Char) : Option ℚ := do
  let cs := if text.head? = some '-' then text.tail else text
  let mantissa := cs.takeWhile (· ≠ 'e')
  let exponent ←
    match cs.dropWhile (· ≠ 'e') with
    | [] => some 0
    | _ :: e => integer? e
  let fraction := (mantissa.dropWhile (· ≠ '.')).tail
  let n ← natural? (mantissa.takeWhile (· ≠ '.') ++ fraction)
  some ((if text.head? = some '-' then -1 else 1) * n * 10 ^ (exponent - fraction.length))

/-! ### Integers -/

theorem natural?_digits {ds : List Char} (hne : ds ≠ []) (hds : ∀ c ∈ ds, c.isDigit = true) :
    natural? ds = some (Nat.ofDigitChars 10 ds 0) := if_pos ⟨hne, List.all_eq_true.mpr hds⟩

theorem natural?_toDigits (n : Nat) : natural? (Nat.toDigits 10 n) = some n := by
  rw [natural?_digits Nat.toDigits_ne_nil fun c hc => isDigit_of_mem_toDigits hc,
    Nat.ofDigitChars_ten_toDigits]

private theorem integer?_toDigits (n : Nat) : integer? (Nat.toDigits 10 n) = some n := by
  have hsign : ∀ {c : Char} {ds : List Char}, Nat.toDigits 10 n = c :: ds → c ≠ '-' ∧ c ≠ '+' := by
    intro c ds hds
    have hc := isDigit_of_mem_toDigits (n := n) (c := c) (hds ▸ List.mem_cons_self)
    constructor <;> rintro rfl <;> cases hc
  unfold integer?
  split
  · exact absurd rfl (hsign ‹_›).1
  · exact absurd rfl (hsign ‹_›).2
  · rw [natural?_toDigits]
    rfl

theorem integer?_signed (e : Int) :
    integer? ((if e < 0 then '-' else '+') :: Nat.toDigits 10 e.natAbs) = some e := by
  split <;>
    simp only [integer?, natural?_toDigits, Option.map_some, Option.some.injEq,
      Int.ofNat_eq_natCast] <;> omega

theorem integer?_integerText (e : Int) : integer? (integerText e) = some e := by
  unfold integerText
  split
  · simp only [integer?, natural?_toDigits, Option.map_some, Option.some.injEq,
      Int.ofNat_eq_natCast]
    omega
  · rw [integer?_toDigits]
    exact congrArg some (by omega)

/-! ### Numerals -/

/-- The parts of the text of a number. -/
structure Numeral where
  negative : Bool
  whole : List Char
  fraction : List Char
  exponent : Option (List Char)

namespace Numeral

/-- A minus, only before a negative number. -/
def sign (m : Numeral) : List Char := if m.negative then ['-'] else []

/-- A point, only before digits. -/
def pointed (m : Numeral) : List Char := if m.fraction = [] then [] else '.' :: m.fraction

def suffix (m : Numeral) : List Char := m.exponent.elim [] ('e' :: ·)

def text (m : Numeral) : List Char := m.sign ++ (m.whole ++ m.pointed ++ m.suffix)

/-- There are digits before the point. -/
structure Proper (m : Numeral) : Prop where
  ne_nil : m.whole ≠ []
  digits : ∀ c ∈ m.whole ++ m.fraction, c.isDigit = true

/-- No part of the numeral could be left out: it has no zero in front but the one before a
point, none at the end of its fraction, and an exponent, with a sign, only after a single digit
that is not zero. -/
structure Tidy (m : Numeral) : Prop extends Proper m where
  whole : m.whole = ['0'] ∨ m.whole.head? ≠ some '0'
  fraction : m.fraction.getLast? ≠ some '0'
  exponent : ∀ e ∈ m.exponent, (∃ c, m.whole = [c] ∧ c ≠ '0') ∧
    ∃ s c cs, e = s :: c :: cs ∧ (s = '+' ∨ s = '-') ∧ c ≠ '0' ∧ ∀ d ∈ c :: cs, d.isDigit = true

variable {m : Numeral}

private theorem tail_pointed (m : Numeral) : m.pointed.tail = m.fraction := by
  unfold pointed
  split
  · rename_i h
    exact h.symm
  · rfl

theorem head?_pointed : ∀ c ∈ m.pointed.head?, c = '.' := by
  unfold pointed
  split <;> simp

theorem head?_suffix : ∀ c ∈ m.suffix.head?, c = 'e' := by
  unfold suffix
  cases m.exponent <;> simp

namespace Proper

private theorem isDigit_whole (h : m.Proper) : ∀ c ∈ m.whole, c.isDigit = true := fun c hc =>
  h.digits c (List.mem_append_left _ hc)

theorem not_mem_whole (h : m.Proper) {c : Char} (hc : c.isDigit = false) : c ∉ m.whole := by
  intro hmem
  rw [h.isDigit_whole c hmem] at hc
  cases hc

theorem not_mem_mantissa (h : m.Proper) {c : Char} (hc : c.isDigit = false) (hpoint : c ≠ '.') :
    c ∉ m.whole ++ m.pointed := by
  rw [List.mem_append, not_or]
  refine ⟨h.not_mem_whole hc, fun hmem => ?_⟩
  unfold pointed at hmem
  split at hmem
  · cases hmem
  · obtain rfl | hmem := List.mem_cons.mp hmem
    · exact hpoint rfl
    · rw [h.digits c (List.mem_append_right _ hmem)] at hc
      cases hc

theorem head?_text (h : m.Proper) : m.text.head? = some '-' ↔ m.negative = true := by
  obtain ⟨d, ds, hds⟩ := List.exists_cons_of_ne_nil h.ne_nil
  have hd : d ≠ '-' := by
    rintro rfl
    exact h.not_mem_whole (c := '-') rfl (hds ▸ List.mem_cons_self)
  cases hn : m.negative <;> simp [text, sign, hn, hds, hd]

/-- What a numeral denotes. -/
theorem valueOfText?_eq (h : m.Proper) {k : Int} (hk : m.exponent.elim (some 0) integer? = some k) :
    valueOfText? m.text = some ((if m.negative then -1 else 1) *
      ((Nat.ofDigitChars 10 (m.whole ++ m.fraction) 0 : ℕ) : ℚ) *
        (10 : ℚ) ^ (k - m.fraction.length)) := by
  have hbody : (if m.text.head? = some '-' then m.text.tail else m.text) =
      m.whole ++ m.pointed ++ m.suffix := by
    simp only [h.head?_text]
    cases hn : m.negative <;> simp [text, sign, hn]
  have hmantissa :=
    takeWhile_until (h.not_mem_mantissa (c := 'e') rfl (by decide)) (head?_suffix (m := m))
  have hsuffix :=
    dropWhile_until (h.not_mem_mantissa (c := 'e') rfl (by decide)) (head?_suffix (m := m))
  have hwhole := takeWhile_until (h.not_mem_whole (c := '.') rfl) (head?_pointed (m := m))
  have hpointed := dropWhile_until (h.not_mem_whole (c := '.') rfl) (head?_pointed (m := m))
  have hnatural := natural?_digits (List.append_ne_nil_of_left_ne_nil h.ne_nil m.fraction) h.digits
  unfold valueOfText?
  rw [hbody]
  simp only [hmantissa, hsuffix, hwhole, hpointed, tail_pointed, hnatural, h.head?_text]
  unfold suffix
  cases he : m.exponent with
  | none =>
    rw [he] at hk
    cases hk
    rfl
  | some e =>
    rw [he] at hk
    change integer? e = some k at hk
    simp only [Option.elim_some, hk]
    rfl

end Proper

end Numeral

end Lox.Number
