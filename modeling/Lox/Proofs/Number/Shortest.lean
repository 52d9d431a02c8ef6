import Lox.Number.Shortest
import Lox.Proofs.Number.Nearest
/-!
# A shortest decimal is read back

The decimal that a finite double is written as has that double as its nearest one: a decimal that
was found by search was tried, the decimal that is taken otherwise is the double itself, and zeros
at the end of a coefficient say nothing.
-/

namespace Lox.Number

/-! ### Decimals -/

def Decimal.value (d : Decimal) : ℚ := d.coefficient * 10 ^ d.exponent

namespace Decimal

theorem nearestBits_eq (d : Decimal) : d.nearestBits =
    Number.nearestBits (scaled 10 d.coefficient d.exponent).1
      (scaled 10 d.coefficient d.exponent).2 := rfl

/-- Equal decimals are read as the same double. -/
theorem nearestBits_congr {d d' : Decimal} (h : d.value = d'.value) :
    d.nearestBits = d'.nearestBits := by
  rw [nearestBits_eq, nearestBits_eq]
  refine Number.nearestBits_congr (scaled_pos _ _ (by decide)) (scaled_pos _ _ (by decide)) ?_
  rw [scaled_div, scaled_div]
  exact h

theorem value_trim (n : Nat) (d : Decimal) : (d.trim n).value = d.value := by
  induction n generalizing d with
  | zero => rfl
  | succ n ih =>
    rw [trim]
    split
    · rename_i hzero
      have hten : d.coefficient / 10 * 10 = d.coefficient :=
        Nat.div_mul_cancel (Nat.dvd_of_mod_eq_zero hzero)
      rw [ih, value, value, zpow_add_one₀ (by norm_num : (10 : ℚ) ≠ 0), mul_comm _ (10 : ℚ),
        ← mul_assoc]
      exact_mod_cast congrArg (fun c : Nat => (c : ℚ) * 10 ^ d.exponent) hten
    · rfl

end Decimal

/-! ### Doubles -/

def Binary.value (b : Binary) : ℚ := b.mantissa * 2 ^ b.exponent

private theorem Binary.value_toDecimal (b : Binary) : b.toDecimal.value = b.value := by
  unfold toDecimal
  split
  · rename_i he
    obtain ⟨n, hn⟩ := Int.eq_ofNat_of_zero_le he
    simp [Decimal.value, Binary.value, hn]
  · rename_i he
    obtain ⟨n, hn⟩ : ∃ n : Nat, b.exponent = -(n : Int) := ⟨(-b.exponent).toNat, by omega⟩
    have hten : (10 : ℚ) = 5 * 2 := by norm_num
    simp only [Decimal.value, Binary.value, hn, neg_neg, Int.toNat_natCast, Nat.cast_mul,
      Nat.pow_eq]
    rw [hten, mul_zpow, zpow_neg, zpow_natCast]
    push_cast
    field_simp

theorem log_lt {m n : Nat} (hm : 0 < m) (h : m < 2 ^ n) (e : Int) :
    Int.log 2 ((m : ℚ) * 2 ^ e) < n + e := by
  have hm' : (0 : ℚ) < m := Nat.cast_pos.mpr hm
  have hlt : (m : ℚ) < 2 ^ n := by exact_mod_cast h
  refine (Int.lt_zpow_iff_log_lt (by decide) (by positivity)).mp ?_
  rw [Nat.cast_ofNat, zpow_add₀ two_ne_zero, zpow_natCast]
  gcongr

private theorem le_log_of_le {m n : Nat} (h : 2 ^ n ≤ m) (e : Int) :
    n + e ≤ Int.log 2 ((m : ℚ) * 2 ^ e) := by
  have hle : (2 : ℚ) ^ n ≤ m := by exact_mod_cast h
  have hm' : (0 : ℚ) < m := lt_of_lt_of_le (by positivity) hle
  refine (Int.zpow_le_iff_le_log (by decide) (by positivity)).mp ?_
  rw [Nat.cast_ofNat, zpow_add₀ two_ne_zero, zpow_natCast]
  gcongr

/-- The value of a double is rounded to its bits. -/
theorem nearestBits_ofBits {num den bits : Nat} (hden : 0 < den) (hpos : 0 < bits)
    (hfinite : bits < infinityBits) (h : (num : ℚ) / den = (Binary.ofBits bits).value) :
    nearestBits num den = bits := by
  have hleading : leadingBit = 2 ^ 52 := rfl
  unfold Binary.ofBits at h
  split at h
  · rename_i hsmall
    change (num : ℚ) / den = (bits : ℚ) * 2 ^ (-1074 : Int) at h
    have hlog := log_lt hpos (hleading ▸ hsmall) (-1074)
    rw [nearestBits_exact hpos hden h (by omega), neg_add_cancel, Int.toNat_zero, Nat.zero_mul,
      Nat.add_zero]
    exact Nat.min_eq_left hfinite.le
  · rename_i hlarge
    change (num : ℚ) / den =
      ((bits % leadingBit + leadingBit : ℕ) : ℚ) * 2 ^ ((bits / leadingBit : ℕ) - 1075 : Int) at h
    have hquotient : 1 ≤ bits / leadingBit :=
      (Nat.one_le_div_iff (by decide)).mpr (Nat.le_of_not_lt hlarge)
    have hmod := Nat.mod_lt bits (show 0 < leadingBit by decide)
    have hsum := Nat.div_add_mod bits leadingBit
    generalize bits / leadingBit = q at h hquotient hsum
    generalize bits % leadingBit = r at h hmod hsum
    have hm : 0 < r + leadingBit := Nat.add_pos_right _ (by decide)
    have hlt := log_lt (n := 53) hm (by omega) (q - 1075)
    have hge := le_log_of_le (n := 52) (show 2 ^ 52 ≤ r + leadingBit by omega) (q - 1075)
    rw [nearestBits_exact hm hden h (by omega), ← hsum]
    have he : ((q : Int) - 1075 + 1074).toNat = q - 1 := by omega
    have hbits : r + leadingBit + (q - 1) * leadingBit = leadingBit * q + r := by
      obtain ⟨q, rfl⟩ := Nat.exists_eq_add_of_le' hquotient
      rw [Nat.add_sub_cancel]
      ring
    rw [he, hbits, hsum]
    exact Nat.min_eq_left hfinite.le

/-! ### The search -/

private theorem nearestBits_onGrid? {bits num den : Nat} {e : Int} {d : Decimal}
    (h : onGrid? bits num den e = some d) : d.nearestBits = bits := by
  simp only [onGrid?] at h
  split at h
  · rename_i hbelow habove
    obtain rfl := Option.some.inj h
    split
    · exact beq_iff_eq.mp hbelow
    · exact beq_iff_eq.mp habove
  · rename_i hbelow _
    obtain rfl := Option.some.inj h
    exact beq_iff_eq.mp hbelow
  · rename_i _ habove
    obtain rfl := Option.some.inj h
    exact beq_iff_eq.mp habove
  · cases h

private theorem nearestBits_firstOnGrid? {bits num den n : Nat} {e : Int} {d : Decimal}
    (h : firstOnGrid? bits num den n e = some d) : d.nearestBits = bits := by
  induction n generalizing e with
  | zero => cases h
  | succ n ih =>
    rw [firstOnGrid?] at h
    split at h
    · rename_i hgrid
      obtain rfl := Option.some.inj h
      exact nearestBits_onGrid? hgrid
    · exact ih h

/-- A finite double that is not zero is the one nearest to its shortest decimal. -/
theorem nearestBits_shortest {bits : Nat} (hpos : 0 < bits) (hfinite : bits < infinityBits) :
    (shortest bits).nearestBits = bits := by
  rw [shortest]
  dsimp only
  rw [Decimal.nearestBits_congr (Decimal.value_trim _ _)]
  generalize hsearch : firstOnGrid? bits _ _ 17 _ = found
  cases found with
  | some d => exact nearestBits_firstOnGrid? hsearch
  -- Seventeen digits are always enough, but that need not be known: without a hit the
  -- double itself is taken.
  | none =>
    refine nearestBits_ofBits (scaled_pos _ _ (by decide)) hpos hfinite ?_
    rw [← Binary.value_toDecimal]
    exact scaled_div _ _ _

end Lox.Number
