import Lox.Number.Writer
import Lox.Proofs.Number.Shortest
/-!
# The digits of a decimal

The digits of a decimal that is trimmed neither start nor end with a zero, and the exponent of the
first of them says how large the decimal is. So the exponents of finite doubles are small.
-/

namespace Lox.Number

/-! ### Digits -/

section

variable {n : Nat} {c : Char}

theorem isDigit_of_mem_toDigits (h : c ∈ Nat.toDigits 10 n) : c.isDigit = true :=
  Nat.isDigit_of_mem_toDigits (by decide) (by decide) h

theorem head?_toDigits (hn : n ≠ 0) : (Nat.toDigits 10 n).head? ≠ some '0' := by
  induction n using Nat.strongRecOn with
  | ind n ih =>
    obtain hlt | hle := Nat.lt_or_ge n 10
    · rw [Nat.toDigits_of_lt_base hlt]
      simpa using hn
    · have hhead := ih (n / 10) (Nat.div_lt_self (by omega) (by decide)) (by omega)
      obtain ⟨d, ds, hds⟩ :=
        List.exists_cons_of_ne_nil (Nat.toDigits_ne_nil (n := n / 10) (b := 10))
      rw [hds] at hhead
      rwa [Nat.toDigits_of_base_le (by decide) hle, hds]

private theorem getLast?_toDigits (hn : n % 10 ≠ 0) : (Nat.toDigits 10 n).getLast? ≠ some '0' := by
  rw [Nat.toDigits_eq_if (by decide)]
  split
  · simp only [List.getLast?_singleton, ne_eq, Option.some.injEq, Nat.digitChar_eq_zero]
    omega
  · simpa using hn

end

/-! ### Trimmed decimals -/

namespace Decimal

variable {d : Decimal}

/-- Its first digit and its last digit are not zero. -/
structure Trimmed (d : Decimal) : Prop where
  coefficient : d.coefficient % 10 ≠ 0

namespace Trimmed

theorem pos (h : d.Trimmed) : d.coefficient ≠ 0 := fun hzero => h.coefficient (by rw [hzero])

theorem head? (h : d.Trimmed) : d.digits.head? ≠ some '0' := head?_toDigits h.pos

theorem getLast? (h : d.Trimmed) : d.digits.getLast? ≠ some '0' := getLast?_toDigits h.coefficient

end Trimmed

/-- As many zeros at the end are left out as there can be. -/
theorem trimmed_trim {n : Nat} (hpos : d.coefficient ≠ 0) (hn : d.coefficient < 10 ^ n) :
    (d.trim n).Trimmed := by
  induction n generalizing d with
  | zero => omega
  | succ n ih =>
    rw [trim]
    split
    · rename_i hzero
      rw [pow_succ] at hn
      exact ih (d := ⟨d.coefficient / 10, d.exponent + 1⟩) (by dsimp only; omega)
        (by dsimp only; omega)
    · rename_i hzero
      exact ⟨hzero⟩

/-- The exponent of the first digit says between which powers of ten the decimal is. -/
theorem leading_bounds (hpos : d.coefficient ≠ 0) :
    (10 : ℚ) ^ d.leading ≤ d.value ∧ d.value < 10 ^ (d.leading + 1) := by
  have hlength : 0 < d.digits.length := Nat.length_toDigits_pos
  have hhigh : d.coefficient < 10 ^ d.digits.length :=
    (Nat.length_toDigits_le_iff (by decide) hlength).mp (Nat.le_refl _)
  have hlow : 10 ^ (d.digits.length - 1) ≤ d.coefficient := by
    obtain hone | hmore := Nat.eq_or_lt_of_le (Nat.succ_le_of_lt hlength)
    · rw [← hone]
      exact Nat.pos_of_ne_zero hpos
    · have hlt := (Nat.length_toDigits_le_iff (n := d.coefficient) (b := 10) (k := d.digits.length -
        1) (by decide)
        (by omega)).not
      change ¬ d.digits.length ≤ _ ↔ _ at hlt
      omega
  have hsplit : ∀ m : Nat, (10 : ℚ) ^ (Int.ofNat m + d.exponent) =
      10 ^ m * 10 ^ d.exponent := fun m => by
    rw [zpow_add₀ (by norm_num), Int.ofNat_eq_natCast, zpow_natCast]
  have hfirst : d.leading = Int.ofNat (d.digits.length - 1) + d.exponent := by
    simp only [leading, Int.ofNat_eq_natCast]
    omega
  have hnext : d.leading + 1 = Int.ofNat d.digits.length + d.exponent := by
    simp only [leading]
    omega
  rw [hnext, hfirst, hsplit, hsplit, value]
  have hunit : (0 : ℚ) < 10 ^ d.exponent := by positivity
  constructor
  · exact mul_le_mul_of_nonneg_right (by exact_mod_cast hlow) hunit.le
  · exact mul_lt_mul_of_pos_right (by exact_mod_cast hhigh) hunit

end Decimal

/-! ### Finite doubles -/

theorem Decimal.coefficient_ne_zero {d : Decimal} (h : 0 < d.nearestBits) : d.coefficient ≠ 0 := by
  intro hzero
  have hvalue : d.value = Decimal.value ⟨0, 0⟩ := by simp [value, hzero]
  rw [nearestBits_congr hvalue] at h
  exact absurd h (by decide)

theorem trimmed_shortest {bits : Nat} (hpos : 0 < bits) (hfinite : bits < infinityBits) :
    (shortest bits).Trimmed := by
  have hread := nearestBits_shortest hpos hfinite
  rw [shortest] at hread ⊢
  dsimp only at hread ⊢
  generalize (firstOnGrid? _ _ _ _ _).getD _ = d at hread ⊢
  rw [Decimal.nearestBits_congr (Decimal.value_trim _ _)] at hread
  refine Decimal.trimmed_trim (Decimal.coefficient_ne_zero (hread ▸ hpos)) ?_
  exact (Nat.length_toDigits_le_iff (by decide) Nat.length_toDigits_pos).mp (Nat.le_refl _)

section

variable {num den : Nat}

private theorem roundHalfEven_ge (num den : Nat) : num / den ≤ roundHalfEven num den := by
  unfold roundHalfEven
  dsimp only
  split
  · exact Nat.le_refl _
  split
  · exact Nat.le_succ _
  split
  · exact Nat.le_refl _
  · exact Nat.le_succ _

private theorem roundHalfEven_small (h : 2 * num < den) : roundHalfEven num den = 0 := by
  have hlt : num < den := by omega
  rw [roundHalfEven, Nat.div_eq_of_lt hlt, Nat.mod_eq_of_lt hlt, if_pos h]

/-- In units of its last place a number that is not too small has the leading bit
of a significand. -/
theorem leadingBit_le_roundHalfEven (hden : 0 < den) {k : Int}
    (hpow : (2 : ℚ) ^ k ≤ (num : ℚ) / den) :
    leadingBit ≤ roundHalfEven (num * (scaled 2 1 (k - 52)).2) (den * (scaled 2 1 (k - 52)).1) := by
  refine le_trans ?_ (roundHalfEven_ge _ _)
  have hden' : (0 : ℚ) < den := Nat.cast_pos.mpr hden
  have hup := scaled_num_pos (c := 1) (by decide) (k - 52) (b := 2) (by decide)
  have hdown : (0 : ℚ) < (scaled 2 1 (k - 52)).2 :=
    Nat.cast_pos.mpr (scaled_pos 1 (k - 52) (by decide))
  have hscaled := scaled_div 2 1 (k - 52)
  rw [Nat.le_div_iff_mul_le (Nat.mul_pos hden hup)]
  rw [div_eq_iff hdown.ne'] at hscaled
  rw [le_div_iff₀ hden'] at hpow
  have hbit : (leadingBit : ℚ) * (den * (scaled 2 1 (k - 52)).1) ≤ num * (scaled 2 1 (k - 52)).2 :=
    calc (leadingBit : ℚ) * (den * (scaled 2 1 (k - 52)).1)
        = 2 ^ (52 : Int) * 2 ^ (k - 52) * den * (scaled 2 1 (k - 52)).2 := by
          rw [hscaled, show (leadingBit : ℚ) = 2 ^ (52 : Int) by norm_num [leadingBit]]
          push_cast
          ring
      _ = 2 ^ k * den * (scaled 2 1 (k - 52)).2 := by
          rw [← zpow_add₀ two_ne_zero]
          congr 3
          omega
      _ ≤ num * (scaled 2 1 (k - 52)).2 :=
        mul_le_mul_of_nonneg_right (by exact_mod_cast hpow) hdown.le
  exact_mod_cast hbit

/-- What is not rounded to infinity is small. -/
theorem lt_of_nearestBits (hden : 0 < den) (h : nearestBits num den < infinityBits) :
    (num : ℚ) / den < 2 ^ (1024 : Int) := by
  by_contra hle
  rw [not_lt] at hle
  have hden' : (0 : ℚ) < den := Nat.cast_pos.mpr hden
  have hr : (0 : ℚ) < (num : ℚ) / den := lt_of_lt_of_le (by positivity) hle
  have hnum : num ≠ 0 := by
    rintro rfl
    simp at hr
  have hlog : 1024 ≤ Int.log 2 ((num : ℚ) / den) := (Int.zpow_le_iff_le_log (by decide) hr).mp hle
  have hunit := unitExponent_eq (Nat.pos_of_ne_zero hnum) hden
  have hpow := Int.zpow_log_le_self (b := 2) (by decide) hr
  generalize Int.log 2 ((num : ℚ) / den) = k at hlog hunit hpow
  rw [max_eq_left (by omega)] at hunit
  have hround := leadingBit_le_roundHalfEven hden hpow
  simp only [nearestBits, hnum, if_false, hunit] at h
  -- The exponent is that of infinity or higher.
  have hexponent : 2046 * leadingBit ≤ (k - 52 + 1074).toNat * leadingBit :=
    Nat.mul_le_mul_right _ (by omega)
  generalize (k - 52 + 1074).toNat * leadingBit = e at h hexponent
  rw [infinityBits] at h
  omega

/-- In units of the smallest double a number below the half of one is rounded to zero. -/
theorem roundHalfEven_of_lt (hden : 0 < den) (hlt : (num : ℚ) / den < 2 ^ (-1075 : Int)) :
    roundHalfEven (num * (scaled 2 1 (-1074)).2) (den * (scaled 2 1 (-1074)).1) = 0 := by
  refine roundHalfEven_small ?_
  have hdown : (0 : ℚ) < (scaled 2 1 (-1074)).2 :=
    Nat.cast_pos.mpr (scaled_pos 1 (-1074) (by decide))
  have hscaled := scaled_div 2 1 (-1074)
  rw [div_eq_iff hdown.ne'] at hscaled
  rw [div_lt_iff₀ (Nat.cast_pos.mpr hden)] at hlt
  have hdouble : (2 : ℚ) * 2 ^ (-1075 : Int) = 2 ^ (-1074 : Int) :=
    (zpow_one_add₀ two_ne_zero (-1075)).symm.trans
      (congrArg (fun k : Int => (2 : ℚ) ^ k) (by decide))
  rw [Nat.cast_one, one_mul, Nat.cast_ofNat] at hscaled
  generalize (2 : ℚ) ^ (-1075 : Int) = u at hlt hdouble
  generalize (2 : ℚ) ^ (-1074 : Int) = v at hscaled hdouble
  have hhalf : (2 : ℚ) * (num * (scaled 2 1 (-1074)).2) < den * (scaled 2 1 (-1074)).1 :=
    calc (2 : ℚ) * (num * (scaled 2 1 (-1074)).2)
        < 2 * (u * den * (scaled 2 1 (-1074)).2) :=
          mul_lt_mul_of_pos_left (mul_lt_mul_of_pos_right hlt hdown) two_pos
      _ = den * (scaled 2 1 (-1074)).1 := by
          rw [hscaled, ← hdouble]
          ring
  exact_mod_cast hhalf

/-- What is not rounded to zero is not too small. -/
theorem le_of_nearestBits (hden : 0 < den) (h : 0 < nearestBits num den) :
    (2 : ℚ) ^ (-1075 : Int) ≤ (num : ℚ) / den := by
  by_contra hlt
  rw [not_le] at hlt
  have hden' : (0 : ℚ) < den := Nat.cast_pos.mpr hden
  have hnum : num ≠ 0 := by
    rintro rfl
    simp [nearestBits] at h
  have hr : (0 : ℚ) < (num : ℚ) / den := div_pos (Nat.cast_pos.mpr (Nat.pos_of_ne_zero hnum)) hden'
  have hlog : Int.log 2 ((num : ℚ) / den) < -1075 := (Int.lt_zpow_iff_log_lt (by decide) hr).mp hlt
  have hunit := unitExponent_eq (Nat.pos_of_ne_zero hnum) hden
  rw [max_eq_right (by omega)] at hunit
  have hround := roundHalfEven_of_lt hden hlt
  simp only [nearestBits, hnum, if_false, hunit, hround] at h
  exact absurd h (by decide)

end

/-- The exponents of finite doubles are small. -/
theorem Decimal.leading_small {d : Decimal} (hpos : 0 < d.nearestBits)
    (hfinite : d.nearestBits < infinityBits) : -1076 < d.leading ∧ d.leading < 1024 := by
  have hden := scaled_pos d.coefficient d.exponent (b := 10) (by decide)
  rw [nearestBits_eq] at hpos hfinite
  have hlow := le_of_nearestBits hden hpos
  have hhigh := lt_of_nearestBits hden hfinite
  rw [scaled_div] at hlow hhigh
  obtain ⟨hle, hlt⟩ := leading_bounds (d := d) (coefficient_ne_zero hpos)
  have hten : (1 : ℚ) < 10 := by norm_num
  have hhigh' : (10 : ℚ) ^ d.leading < 10 ^ (1024 : Int) :=
    (hle.trans_lt hhigh).trans_le (zpow_le_zpow_left₀ (by decide) (by norm_num) (by norm_num))
  have hlow' : (10 : ℚ) ^ (-1075 : Int) < 10 ^ (d.leading + 1) := by
    refine lt_of_le_of_lt ?_ (hlow.trans_lt hlt)
    rw [zpow_neg, zpow_neg]
    exact inv_anti₀ (by positivity) (zpow_le_zpow_left₀ (by decide) (by norm_num) (by norm_num))
  have hupper := (zpow_lt_zpow_iff_right₀ hten).mp hhigh'
  have hlower := (zpow_lt_zpow_iff_right₀ hten).mp hlow'
  omega

end Lox.Number
