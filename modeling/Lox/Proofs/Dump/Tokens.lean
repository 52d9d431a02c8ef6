import Lox.Proofs.Dump.Trees
import Lox.Proofs.Number.Printed
/-!
# The words that tokens of a text make

What a text is cut into are tokens that stand in forms as they are, but for the parentheses, and for
numbers that are too large for a finite double. No number of a text has a sign.
-/

namespace Lox

open Number

/-! ### Numbers read from digits -/

section

open Float.Model

/-- A number from zero up to infinity has the bits that it was made from. -/
theorem Number.toBits_ofBits {n : Nat} (h : n ≤ infinityBits) :
    (Float.ofBits (UInt64.ofNat n)).toBits.toNat = n := by
  have hsmall : n < 2 ^ 64 := Nat.lt_of_le_of_lt h (by decide)
  have hbits : (UInt64.ofNat n).toNat = n := by rw [UInt64.toNat_ofNat', Nat.mod_eq_of_lt hsmall]
  have hvalid : Format.binary64.Valid (UInt64.ofNat n).toBitVec := by
    have hvector : (UInt64.ofNat n).toBitVec.toNat = n := hbits
    generalize (UInt64.ofNat n).toBitVec = b at hvector
    refine ⟨fun hexponent hmantissa => absurd (BitVec.eq_of_toNat_eq ?_) hmantissa⟩
    -- With every bit of the exponent set, and no more than infinity, nothing is left
    -- for the mantissa.
    have hinfinity : infinityBits = 2047 * 2 ^ 52 := by decide
    have htop := congrArg BitVec.toNat hexponent
    simp [UnpackedFloat.unpackExponent, hvector, Nat.shiftRight_eq_div_pow] at htop
    simp [UnpackedFloat.unpackMantissa, hvector]
    omega
  have hmodel : Float.ofBits (UInt64.ofNat n) = .ofModel ⟨UInt64.ofNat n, hvalid⟩ :=
    Float.ofBits_toBits (.ofModel ⟨UInt64.ofNat n, hvalid⟩)
  rw [hmodel]
  exact hbits

end

theorem Number.Decimal.nearestBits_le (d : Decimal) : d.nearestBits ≤ infinityBits := by
  simp only [Decimal.nearestBits, Number.nearestBits]
  split
  · exact Nat.zero_le _
  · exact Nat.min_le_right _ _

private theorem Number.Decimal.toBits_toFloat_le (d : Decimal) :
    d.toFloat.toBits.toNat ≤ infinityBits := by
  rw [Decimal.toFloat, toBits_ofBits d.nearestBits_le]
  exact d.nearestBits_le

/-! ### Words and numbers -/

namespace TokenKind

/-- What a token of a text may be. -/
def Lexical : TokenKind → Prop
  | number x => x.toBits.toNat ≤ infinityBits
  | eof => True
  | k => k.Printable

/-- A word, or a number that may be infinite. -/
def Drawn : TokenKind → Prop
  | number x => x.toBits.toNat ≤ infinityBits
  | k => k.Word

variable {k : TokenKind} {x : Float}

/-- A finite number of sign zero has no bits above those of its magnitude. -/
theorem printable_number (hx : x.toBits.toNat ≤ infinityBits) (hfinite : Number.Finite x) :
    (number x).Printable := by
  have hmagnitude : magnitude x = x.toBits.toNat :=
    Nat.mod_eq_of_lt (Nat.lt_of_le_of_lt hx (by decide))
  rw [Number.Finite, hmagnitude] at hfinite
  exact hfinite

theorem Drawn.word (h : k.Drawn) (hfinite : ∀ x, k = number x → Number.Finite x) : k.Word := by
  cases k with
  | number x => exact ⟨printable_number h (hfinite x rfl), nofun, nofun⟩
  | _ => exact h

theorem Lexical.drawn (h : k.Lexical) (heof : k ≠ .eof) (hsymbol : ∀ s, k ≠ .symbol s) :
    k.Drawn := by
  cases k with
  | number => exact h
  | eof => exact absurd rfl heof
  | symbol s => exact absurd rfl (hsymbol s)
  | _ => exact ⟨h, nofun, nofun⟩

end TokenKind

private theorem Lexeme.lexical {w : List Char} {k : TokenKind} (h : Lexeme w k) : k.Lexical := by
  cases h with
  | symbol | keyword => exact trivial
  | @identifier c cs hc hcs hw =>
    refine ⟨⟨c, cs, String.toList_ofList, hc, hcs⟩, fun w h => hw w ?_⟩
    rw [h, String.toList_ofList]
  | string hs =>
    change _ ∉ _
    rwa [String.toList_ofList]
  | whole | fraction => exact Decimal.toBits_toFloat_le _

/-- The tokens of a text. -/
theorem Lexed.lexical_ofText (text : String) : ∀ t ∈ (ofText text).tokens, t.kind.Lexical := by
  have haccounts := Piece.accounts_all text.toList
  rw [ofText]
  generalize Piece.all text.toList = ps at haccounts
  generalize text.toList = cs at haccounts
  generalize Position.start = p
  induction haccounts generalizing p with
  | nil => exact List.forall_mem_singleton.mpr trivial
  | blank _ _ ih | comment _ _ _ ih | unexpected _ _ _ _ ih => exact ih _
  | token hw _ _ ih => exact List.forall_mem_cons.mpr ⟨hw.lexeme.lexical, ih _⟩
  | unterminated => exact List.forall_mem_singleton.mpr trivial

end Lox
