import Mathlib.Algebra.Order.Field.Power
import Mathlib.Data.Int.Log
import Mathlib.Data.Rat.Floor
import Mathlib.Tactic.FieldSimp
import Mathlib.Tactic.Positivity
import Mathlib.Tactic.Ring
import Lox.Number.Nearest
/-!
# The nearest double is a function of the value

A quotient of naturals is rounded to the nearest double by way of natural numbers only, but
what comes out depends on its value alone, and a value that a double has is rounded to the
bits of that double.
-/

namespace Lox.Number

/-! ### Scaling -/

theorem scaled_pos (c : Nat) (e : Int) {b : Nat} (hb : 0 < b) : 0 < (scaled b c e).2 := by
  unfold scaled
  split
  · exact Nat.one_pos
  · exact Nat.pow_pos hb

theorem scaled_num_pos {c : Nat} (hc : 0 < c) (e : Int) {b : Nat} (hb : 0 < b) :
    0 < (scaled b c e).1 := by
  unfold scaled
  split
  · exact Nat.mul_pos hc (Nat.pow_pos hb)
  · exact hc

theorem scaled_div (b c : Nat) (e : Int) :
    ((scaled b c e).1 : ℚ) / (scaled b c e).2 = c * (b : ℚ) ^ e := by
  unfold scaled
  split
  · rename_i he
    obtain ⟨n, rfl⟩ := Int.eq_ofNat_of_zero_le he
    simp
  · rename_i he
    obtain ⟨n, rfl⟩ : ∃ n : Nat, e = -(n : Int) := ⟨(-e).toNat, by omega⟩
    simp [div_eq_mul_inv]

/-! ### The exponent of the leading bit -/

section

variable {num den : Nat}

private theorem log_le (hnum : 0 < num) (hden : 0 < den) :
    Int.log 2 ((num : ℚ) / den) ≤ Int.ofNat num.log2 - Int.ofNat den.log2 := by
  have hden' : (0 : ℚ) < den := Nat.cast_pos.mpr hden
  have hr : (0 : ℚ) < (num : ℚ) / den := div_pos (Nat.cast_pos.mpr hnum) hden'
  have hhigh : (num : ℚ) < 2 ^ (num.log2 + 1) := by exact_mod_cast Nat.lt_log2_self
  have hlow : (2 : ℚ) ^ den.log2 ≤ den := by exact_mod_cast Nat.log2_self_le hden.ne'
  refine Int.lt_add_one_iff.mp
    ((Int.lt_zpow_iff_log_lt (by decide) hr).mp ((div_lt_iff₀ hden').mpr ?_))
  calc (num : ℚ) < 2 ^ (num.log2 + 1) := hhigh
    _ = ((2 : ℕ) : ℚ) ^ (Int.ofNat num.log2 - Int.ofNat den.log2 + 1) * 2 ^ den.log2 := by
      rw [Nat.cast_ofNat, ← zpow_natCast, ← zpow_natCast, ← zpow_add₀ two_ne_zero]
      congr 1
      simp only [Int.ofNat_eq_natCast]
      omega
    _ ≤ _ := by gcongr

private theorem le_log (hnum : 0 < num) (hden : 0 < den) :
    Int.ofNat num.log2 - Int.ofNat den.log2 - 1 ≤ Int.log 2 ((num : ℚ) / den) := by
  have hden' : (0 : ℚ) < den := Nat.cast_pos.mpr hden
  have hr : (0 : ℚ) < (num : ℚ) / den := div_pos (Nat.cast_pos.mpr hnum) hden'
  have hlow : (2 : ℚ) ^ num.log2 ≤ num := by exact_mod_cast Nat.log2_self_le hnum.ne'
  have hhigh : (den : ℚ) ≤ 2 ^ (den.log2 + 1) := by exact_mod_cast Nat.lt_log2_self.le
  refine (Int.zpow_le_iff_le_log (by decide) hr).mp ((le_div_iff₀ hden').mpr ?_)
  calc ((2 : ℕ) : ℚ) ^ (Int.ofNat num.log2 - Int.ofNat den.log2 - 1) * den
      ≤ ((2 : ℕ) : ℚ) ^ (Int.ofNat num.log2 - Int.ofNat den.log2 - 1) * 2 ^ (den.log2 + 1) := by
        gcongr
    _ = 2 ^ num.log2 := by
      rw [Nat.cast_ofNat, ← zpow_natCast, ← zpow_natCast, ← zpow_add₀ two_ne_zero]
      congr 1
      simp only [Int.ofNat_eq_natCast]
      omega
    _ ≤ num := hlow

/-- The guess is right or too high by one. -/
theorem floorLog_eq (hnum : 0 < num) (hden : 0 < den) :
    floorLog 2 num den (Int.ofNat num.log2 - Int.ofNat den.log2) = Int.log 2 ((num : ℚ) / den) := by
  have hden' : (0 : ℚ) < den := Nat.cast_pos.mpr hden
  have hr : (0 : ℚ) < (num : ℚ) / den := div_pos (Nat.cast_pos.mpr hnum) hden'
  have hle := log_le hnum hden
  have hge := le_log hnum hden
  generalize Int.ofNat num.log2 - Int.ofNat den.log2 = k at hle hge
  have hunit : (0 : ℚ) < (scaled 2 1 k).2 := Nat.cast_pos.mpr (scaled_pos 1 k (by decide))
  have hpow : ((scaled 2 1 k).1 : ℚ) / (scaled 2 1 k).2 = ((2 : ℕ) : ℚ) ^ k := by
    rw [scaled_div, Nat.cast_one, one_mul]
  have htest : den * (scaled 2 1 k).1 ≤ num * (scaled 2 1 k).2 ↔
      k ≤ Int.log 2 ((num : ℚ) / den) := by
    rw [← Int.zpow_le_iff_le_log (by decide) hr, ← hpow, div_le_div_iff₀ hunit hden',
      ← Nat.cast_le (α := ℚ), Nat.cast_mul, Nat.cast_mul, mul_comm (den : ℚ)]
  rw [floorLog]
  dsimp only
  simp only [htest]
  split <;> omega

end

theorem unitExponent_eq {num den : Nat} (hnum : 0 < num) (hden : 0 < den) :
    unitExponent num den = max (Int.log 2 ((num : ℚ) / den) - 52) (-1074) := by
  rw [unitExponent, floorLog_eq hnum hden]

/-! ### Rounding -/

theorem roundHalfEven_mul {k : Nat} (hk : 0 < k) (num den : Nat) :
    roundHalfEven (k * num) (k * den) = roundHalfEven num den := by
  have hlow : 2 * (k * (num % den)) < k * den ↔ 2 * (num % den) < den := by
    rw [Nat.mul_left_comm, Nat.mul_lt_mul_left hk]
  have hhigh : k * den < 2 * (k * (num % den)) ↔ den < 2 * (num % den) := by
    rw [Nat.mul_left_comm 2, Nat.mul_lt_mul_left hk]
  simp only [roundHalfEven, Nat.mul_div_mul_left _ _ hk, Nat.mul_mod_mul_left, hlow, hhigh]

private theorem roundHalfEven_congr {num den num' den' : Nat} (hden : 0 < den) (hden' : 0 < den')
    (h : num * den' = num' * den) : roundHalfEven num den = roundHalfEven num' den' := by
  rw [← roundHalfEven_mul hden' num den, ← roundHalfEven_mul hden num' den', Nat.mul_comm den' num,
    h, Nat.mul_comm num', Nat.mul_comm den']

private theorem roundHalfEven_exact {m den : Nat} (hden : 0 < den) :
    roundHalfEven (m * den) den = m := by
  simp [roundHalfEven, Nat.mul_div_cancel _ hden, hden]

/-- Equal quotients have the same nearest double. -/
theorem nearestBits_congr {num den num' den' : Nat} (hden : 0 < den) (hden' : 0 < den')
    (h : (num : ℚ) / den = num' / den') : nearestBits num den = nearestBits num' den' := by
  have hcross : num * den' = num' * den := by
    have hmul :=
      (div_eq_div_iff (Nat.cast_ne_zero.mpr hden.ne') (Nat.cast_ne_zero.mpr hden'.ne')).mp h
    exact_mod_cast hmul
  rcases Nat.eq_zero_or_pos num with rfl | hnum
  · obtain rfl : num' = 0 := by
      rw [Nat.zero_mul] at hcross
      exact (Nat.mul_eq_zero.mp hcross.symm).resolve_right hden.ne'
    rw [nearestBits, nearestBits, if_pos rfl, if_pos rfl]
  have hnum' : 0 < num' := Nat.pos_of_ne_zero fun hzero => by
    rw [hzero, Nat.zero_mul] at hcross
    exact (Nat.mul_pos hnum hden').ne' hcross
  have hunit : unitExponent num den = unitExponent num' den' := by
    rw [unitExponent_eq hnum hden, unitExponent_eq hnum' hden', h]
  simp only [nearestBits, hnum.ne', hnum'.ne', if_false, hunit]
  generalize unitExponent num' den' = q
  have hdown : 0 < (scaled 2 1 q).2 := scaled_pos 1 q (by decide)
  have hup : 0 < (scaled 2 1 q).1 := scaled_num_pos (by decide) q (by decide)
  rw [roundHalfEven_congr (Nat.mul_pos hden hup) (Nat.mul_pos hden' hup)]
  calc num * (scaled 2 1 q).2 * (den' * (scaled 2 1 q).1)
      = num * den' * ((scaled 2 1 q).2 * (scaled 2 1 q).1) := by ring
    _ = num' * (scaled 2 1 q).2 * (den * (scaled 2 1 q).1) := by rw [hcross]; ring

/-- A value with so many units of its last bit, if that is where its last bit is. -/
theorem nearestBits_exact {num den m : Nat} {q : Int} (hm : 0 < m) (hden : 0 < den)
    (h : (num : ℚ) / den = m * 2 ^ q) (hq : max (Int.log 2 ((m : ℚ) * 2 ^ q) - 52) (-1074) = q) :
    nearestBits num den = min (m + (q + 1074).toNat * leadingBit) infinityBits := by
  have hden' : (0 : ℚ) < den := Nat.cast_pos.mpr hden
  have hnum : 0 < num := Nat.pos_of_ne_zero fun hzero => by
    rw [hzero, Nat.cast_zero, zero_div] at h
    exact absurd h.symm (by positivity)
  have hunit : unitExponent num den = q := by rw [unitExponent_eq hnum hden, h, hq]
  have hdown : 0 < (scaled 2 1 q).2 := scaled_pos 1 q (by decide)
  have hup : 0 < (scaled 2 1 q).1 := scaled_num_pos (by decide) q (by decide)
  have hexact : num * (scaled 2 1 q).2 = m * (den * (scaled 2 1 q).1) := by
    have hpow : ((scaled 2 1 q).1 : ℚ) / (scaled 2 1 q).2 = 2 ^ q := by
      rw [scaled_div, Nat.cast_one, one_mul, Nat.cast_ofNat]
    have hdown' : ((scaled 2 1 q).2 : ℚ) ≠ 0 := Nat.cast_ne_zero.mpr hdown.ne'
    rw [← hpow] at h
    have hmul : (num : ℚ) * (scaled 2 1 q).2 = m * (den * (scaled 2 1 q).1) := by
      field_simp at h
      linarith
    exact_mod_cast hmul
  simp only [nearestBits, hnum.ne', if_false, hunit]
  rw [hexact, roundHalfEven_exact (Nat.mul_pos hden hup)]

end Lox.Number
