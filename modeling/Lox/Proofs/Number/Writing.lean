import Lox.Proofs.Number.Notation
/-!
# Printed decimals

The writer of printed numbers gets by on every text with a small exponent. What it writes has
one of four forms, which are the same number as the text that it starts from, with nothing
that could be left out.
-/

namespace Lox.Number

namespace Decimal

variable {d : Decimal} {negative : Bool}

/-- The parts of a text with an exponent. -/
def scientific (d : Decimal) : Numeral :=
  ⟨false, d.digits.take 1, d.digits.drop 1, some (integerText d.leading)⟩

/-- The parts of a printed text: with the point in its place if its first digit stands less than
seven places after the point and less than twenty-two before it, and with an exponent otherwise. -/
def numeral (negative : Bool) (d : Decimal) : Numeral :=
  if -7 < d.leading ∧ d.leading < 21 then
    if d.leading < 0 then
      ⟨negative, ['0'], List.replicate (-d.leading - 1).toNat '0' ++ d.digits, none⟩
    else if d.leading.toNat + 1 < d.digits.length then
      ⟨negative, d.digits.take (d.leading.toNat + 1), d.digits.drop (d.leading.toNat + 1), none⟩
    else ⟨negative,
      d.digits ++ List.replicate (d.leading.toNat + 1 - d.digits.length) '0', [], none⟩
  else
    ⟨negative, d.digits.take 1, d.digits.drop 1,
      some ((if d.leading < 0 then '-' else '+') :: Nat.toDigits 10 d.leading.natAbs)⟩

section

variable (hplain : -7 < d.leading ∧ d.leading < 21)

include hplain

theorem numeral_of_neg (hneg : d.leading < 0) :
    d.numeral negative =
      ⟨negative, ['0'], List.replicate (-d.leading - 1).toNat '0' ++ d.digits, none⟩ := by
  rw [numeral, if_pos hplain, if_pos hneg]

theorem numeral_of_lt (hneg : ¬ d.leading < 0) (hlt : d.leading.toNat + 1 < d.digits.length) :
    d.numeral negative =
      ⟨negative, d.digits.take (d.leading.toNat + 1),
        d.digits.drop (d.leading.toNat + 1), none⟩ := by
  rw [numeral, if_pos hplain, if_neg hneg, if_pos hlt]

theorem numeral_of_ge (hneg : ¬ d.leading < 0) (hlt : ¬ d.leading.toNat + 1 < d.digits.length) :
    d.numeral negative =
      ⟨negative, d.digits ++ List.replicate (d.leading.toNat + 1 - d.digits.length) '0',
        [], none⟩ := by
  rw [numeral, if_pos hplain, if_neg hneg, if_neg hlt]

end

theorem numeral_of_not_plain (hplain : ¬ (-7 < d.leading ∧ d.leading < 21)) :
    d.numeral negative = ⟨negative, d.digits.take 1, d.digits.drop 1,
      some ((if d.leading < 0 then '-' else '+') ::
        Nat.toDigits 10 d.leading.natAbs)⟩ := if_neg hplain

theorem negative_numeral : (d.numeral negative).negative = negative := by
  unfold numeral
  split
  · split
    · rfl
    split <;> rfl
  · rfl

theorem digits_ne_nil (d : Decimal) : d.digits ≠ [] := Nat.toDigits_ne_nil

theorem isDigit_digits (d : Decimal) : ∀ c ∈ d.digits, c.isDigit = true :=
  fun _ hc => isDigit_of_mem_toDigits hc

theorem ofDigitChars_digits (d : Decimal) : Nat.ofDigitChars 10 d.digits 0 = d.coefficient :=
  Nat.ofDigitChars_ten_toDigits

theorem leading_eq (d : Decimal) : d.leading = Int.ofNat d.digits.length + d.exponent - 1 := rfl

private theorem text_scientific (d : Decimal) : d.scientific.text = d.exponential := by
  obtain ⟨c, cs, hds⟩ := List.exists_cons_of_ne_nil d.digits_ne_nil
  rw [exponential, scientific, hds]
  cases cs <;> rfl

theorem proper_scientific (d : Decimal) : d.scientific.Proper where
  ne_nil := by
    obtain ⟨c, cs, hds⟩ := List.exists_cons_of_ne_nil d.digits_ne_nil
    rw [scientific, hds]
    exact List.cons_ne_nil _ _
  digits := by
    change ∀ c ∈ d.digits.take 1 ++ d.digits.drop 1, _
    rw [List.take_append_drop]
    exact d.isDigit_digits

/-- The text with an exponent denotes the decimal. -/
theorem valueOfText?_exponential (d : Decimal) : valueOfText? d.exponential = some d.value := by
  have hlength := List.length_pos_iff.mpr d.digits_ne_nil
  rw [← text_scientific,
    d.proper_scientific.valueOfText?_eq (k := d.leading) (integer?_integerText _)]
  simp only [scientific, List.take_append_drop, ofDigitChars_digits, List.length_drop, value,
    Bool.false_eq_true, if_false, one_mul, leading_eq, Int.ofNat_eq_natCast]
  congr 3
  omega

theorem proper_numeral (negative : Bool) (d : Decimal) : (d.numeral negative).Proper := by
  have hlength := List.length_pos_iff.mpr d.digits_ne_nil
  have hzeros : ∀ n, ∀ c ∈ List.replicate n '0', c.isDigit = true := fun n c hc => by
    rw [List.eq_of_mem_replicate hc]
    rfl
  unfold numeral
  split
  · split
    · refine ⟨List.cons_ne_nil _ _,
        List.forall_mem_append.mpr ⟨List.forall_mem_singleton.mpr rfl, ?_⟩⟩
      exact List.forall_mem_append.mpr ⟨hzeros _, d.isDigit_digits⟩
    split
    · refine ⟨List.length_pos_iff.mp (by rw [List.length_take]; omega), ?_⟩
      dsimp only
      rw [List.take_append_drop]
      exact d.isDigit_digits
    · refine ⟨List.append_ne_nil_of_left_ne_nil d.digits_ne_nil _, ?_⟩
      dsimp only
      rw [List.append_nil]
      exact List.forall_mem_append.mpr ⟨d.isDigit_digits, hzeros _⟩
  · exact ⟨d.proper_scientific.ne_nil, d.proper_scientific.digits⟩

/-- What is printed denotes the decimal, with its sign. -/
theorem valueOfText?_numeral (negative : Bool) (d : Decimal) :
    valueOfText? (d.numeral negative).text = some ((if negative then -1 else 1) * d.value) := by
  have hlength := List.length_pos_iff.mpr d.digits_ne_nil
  have hleading := d.leading_eq
  simp only [Int.ofNat_eq_natCast] at hleading
  -- The digits of the numeral, with the exponent that their last one has.
  have hvalue : ∀ {m : Numeral} {k : Int}, d.numeral negative = m →
      m.exponent.elim (some 0) integer? = some k →
      ((Nat.ofDigitChars 10 (m.whole ++ m.fraction) 0 : ℕ) : ℚ) *
        10 ^ (k - m.fraction.length) = d.value →
      valueOfText? (d.numeral negative).text = some ((if negative then -1 else 1) * d.value) := by
    rintro m k rfl hk h
    rw [(d.proper_numeral negative).valueOfText?_eq hk, negative_numeral, mul_assoc, h]
  by_cases hplain : -7 < d.leading ∧ d.leading < 21
  · by_cases hneg : d.leading < 0
    · refine hvalue (k := 0) (numeral_of_neg hplain hneg) rfl ?_
      have hdigits :
          Nat.ofDigitChars 10 d.digits (10 ^ (-d.leading - 1).toNat *
            (10 * 0 + ('0'.toNat - '0'.toNat))) =
          d.coefficient := d.ofDigitChars_digits
      rw [List.singleton_append, Nat.ofDigitChars_cons, Nat.ofDigitChars_append,
        Nat.ofDigitChars_replicate_zero, List.length_append, List.length_replicate, value, hdigits]
      congr 2
      push_cast
      omega
    by_cases hlt : d.leading.toNat + 1 < d.digits.length
    · refine hvalue (k := 0) (numeral_of_lt hplain hneg hlt) rfl ?_
      rw [List.take_append_drop, ofDigitChars_digits, List.length_drop, value]
      congr 2
      omega
    · refine hvalue (k := 0) (numeral_of_ge hplain hneg hlt) rfl ?_
      obtain ⟨n, hn⟩ : ∃ n : Nat, d.exponent = n := ⟨d.exponent.toNat, by omega⟩
      have hfill : d.leading.toNat + 1 - d.digits.length = n := by omega
      rw [List.append_nil, Nat.ofDigitChars_append, Nat.ofDigitChars_replicate_zero,
        ofDigitChars_digits, hfill, value, hn]
      simp [mul_comm]
  · refine hvalue (numeral_of_not_plain hplain) (integer?_signed _) ?_
    rw [List.take_append_drop, ofDigitChars_digits, List.length_drop, value]
    congr 2
    omega

/-! ### Nothing to be left out -/

namespace Trimmed

variable (h : d.Trimmed)

include h

/-- The first digit is not zero. -/
theorem exists_digits : ∃ c cs, d.digits = c :: cs ∧ c ≠ '0' := by
  obtain ⟨c, cs, hds⟩ := List.exists_cons_of_ne_nil d.digits_ne_nil
  exact ⟨c, cs, hds, fun hzero => h.head? (by rw [hds, hzero, List.head?_cons])⟩

private theorem whole_numeral (negative : Bool) :
    (d.numeral negative).whole = ['0'] ∨ (d.numeral negative).whole.head? ≠ some '0' := by
  obtain ⟨c, cs, hds, hc⟩ := h.exists_digits
  unfold numeral
  split
  · split
    · exact .inl rfl
    split <;> refine .inr ?_ <;> simpa [hds] using hc
  · refine .inr ?_
    simpa [hds] using hc

private theorem fraction_numeral (negative : Bool) :
    (d.numeral negative).fraction.getLast? ≠ some '0' := by
  have hlast := h.getLast?
  have hdrop : ∀ n, (d.digits.drop n).getLast? ≠ some '0' := by
    intro n
    rw [List.getLast?_drop]
    split
    · exact nofun
    · exact hlast
  unfold numeral
  split
  · split
    · simpa [List.getLast?_append_of_ne_nil _ d.digits_ne_nil] using hlast
    split
    · exact hdrop _
    · exact nofun
  · exact hdrop _

theorem tidy_numeral (negative : Bool) : (d.numeral negative).Tidy := by
  refine ⟨d.proper_numeral negative, h.whole_numeral negative, h.fraction_numeral negative, ?_⟩
  obtain ⟨c, cs, hds, hc⟩ := h.exists_digits
  unfold numeral
  split <;> rename_i hplain
  · split
    · exact nofun
    split <;> exact nofun
  · rintro _ ⟨⟩
    obtain ⟨e, es, hes⟩ :=
      List.exists_cons_of_ne_nil (Nat.toDigits_ne_nil (n := d.leading.natAbs) (b := 10))
    refine ⟨⟨c, by simp [hds], hc⟩, _, e, es, by rw [hes], ?_, ?_, ?_⟩
    · split
      · exact .inr rfl
      · exact .inl rfl
    · rintro rfl
      exact head?_toDigits (n := d.leading.natAbs) (by omega) (by rw [hes, List.head?_cons])
    · exact fun f hf => isDigit_of_mem_toDigits (hes ▸ hf)

end Trimmed

/-- The exponent is printed if the number is very large or very small. -/
theorem mem_text_numeral :
    'e' ∈ (d.numeral negative).text ↔ ¬ (-7 < d.leading ∧ d.leading < 21) := by
  have hmark := (d.proper_numeral negative).not_mem_mantissa (c := 'e') rfl (by decide)
  have hsign : 'e' ∉ (d.numeral negative).sign := by
    unfold Numeral.sign
    split <;> decide
  rw [Numeral.text, List.mem_append, List.mem_append]
  simp only [hsign, hmark, false_or]
  unfold numeral Numeral.suffix
  split <;> rename_i hplain
  · split
    · simp [hplain]
    split <;> simp [hplain]
  · simp [hplain]

/-- Printed decimals are written so. -/
theorem text_numeral (negative : Bool) (d : Decimal) :
    (d.numeral negative).text = (if negative then ['-'] else []) ++ Number.printed.decimal d := by
  have hpoint : Int.ofNat d.digits.length + d.exponent = d.leading + 1 := by
    rw [leading_eq]
    omega
  have hpositional : Number.printed.positional (d.leading + 1) = decide (-7 < d.leading ∧
      d.leading < 21) :=
    decide_eq_decide.mpr (by omega)
  change _ = _ ++ (if Number.printed.positional (Int.ofNat d.digits.length + d.exponent)
    then Layout.placePoint d.digits (Int.ofNat d.digits.length + d.exponent)
    else Layout.scientific d.digits (Int.ofNat d.digits.length + d.exponent))
  rw [hpoint, hpositional]
  simp only [decide_eq_true_eq]
  by_cases hplain : -7 < d.leading ∧ d.leading < 21
  · rw [if_pos hplain, Layout.placePoint]
    by_cases hneg : d.leading < 0
    · have hzeros : (-(d.leading + 1)).toNat = (-d.leading - 1).toNat := by omega
      rw [numeral_of_neg hplain hneg, if_pos (show d.leading + 1 ≤ 0 by omega), hzeros]
      simp [Numeral.text, Numeral.sign, Numeral.pointed, Numeral.suffix, d.digits_ne_nil]
    have hcut : (d.leading + 1).toNat = d.leading.toNat + 1 := by omega
    rw [if_neg (show ¬ d.leading + 1 ≤ 0 by omega), hcut]
    by_cases hlt : d.leading.toNat + 1 < d.digits.length
    · have hdrop : ¬ d.digits.length ≤ d.leading.toNat + 1 := by omega
      rw [numeral_of_lt hplain hneg hlt, if_pos hlt]
      simp [Numeral.text, Numeral.sign, Numeral.pointed, Numeral.suffix, hdrop]
    · rw [numeral_of_ge hplain hneg hlt, if_neg hlt]
      simp [Numeral.text, Numeral.sign, Numeral.pointed, Numeral.suffix]
  · have hexponent : d.leading + 1 - 1 = d.leading := by omega
    obtain ⟨c, cs, hds⟩ := List.exists_cons_of_ne_nil d.digits_ne_nil
    rw [numeral_of_not_plain hplain, if_neg hplain]
    unfold Layout.scientific
    rw [hexponent, hds]
    cases cs <;> simp [Numeral.text, Numeral.sign, Numeral.pointed, Numeral.suffix]

end Decimal

namespace Writer

variable {d : Decimal}

private theorem splitOnce_exponential (d : Decimal) :
    splitOnce 'e' d.exponential = .ok (mantissa d.digits, integerText d.leading) := by
  have hmark : 'e' ∉ mantissa d.digits := by
    have hdigits := d.isDigit_digits
    have he : 'e' ∉ d.digits := fun hmem => by cases hdigits 'e' hmem
    unfold mantissa
    split
    · rename_i c e es hds
      rw [hds] at he
      simpa using he
    · exact he
  unfold splitOnce Decimal.exponential
  rw [dropWhile_until hmark (by simp), takeWhile_until hmark (by simp)]

private theorem filter_mantissa {ds : List Char} (h : ∀ c ∈ ds, c.isDigit = true) :
    (mantissa ds).filter (· ≠ '.') = ds := by
  have hpoint : ∀ c ∈ ds, c ≠ '.' := by
    rintro c hc rfl
    cases h '.' hc
  have hkept : ds.filter (· ≠ '.') = ds :=
    List.filter_eq_self.mpr fun c hc => by simpa using hpoint c hc
  unfold mantissa
  split
  · rename_i c e es
    have hc : c ≠ '.' := hpoint c List.mem_cons_self
    rw [List.filter_cons_of_pos (by simpa using hc)] at hkept ⊢
    rwa [List.filter_cons_of_neg (by simp)]
  · exact hkept

/-- The writer never gets stuck on a text with a small exponent. -/
theorem rewrite_exponential (negative : Bool) (hlow : -1076 < d.leading)
    (hhigh : d.leading < 1024) :
    rewrite negative d.exponential = .ok (d.numeral negative).text := by
  have hexponent : parseExponent (integerText d.leading) = .ok d.leading := by
    rw [parseExponent, integer?_integerText]
    exact if_pos (by omega)
  have hpoint : checked (d.leading + 1) = .ok (d.leading + 1) := if_pos (by omega)
  unfold rewrite
  simp only [splitOnce_exponential, hexponent, filter_mantissa d.isDigit_digits, hpoint, bind,
    Except.bind]
  have hlength := List.length_pos_iff.mpr d.digits_ne_nil
  simp only [Int.ofNat_eq_natCast]
  by_cases hplain : -7 < d.leading ∧ d.leading < 21
  · by_cases hneg : d.leading < 0
    · have hzeros : (d.leading + 1).natAbs = (-d.leading - 1).toNat := by omega
      rw [Decimal.numeral_of_neg hplain hneg, if_neg (by omega), if_neg (by omega),
        if_pos (by omega), hzeros]
      simp [Numeral.text, Numeral.sign, Numeral.pointed, Numeral.suffix, d.digits_ne_nil]
    by_cases hlt : d.leading.toNat + 1 < d.digits.length
    · have hcut : (d.leading + 1).toNat = d.leading.toNat + 1 := by omega
      have hdrop : ¬ d.digits.length ≤ d.leading.toNat + 1 := by omega
      rw [Decimal.numeral_of_lt hplain hneg hlt, if_neg (by omega), if_pos (by omega), hcut,
        splitAt, if_pos hlt.le]
      simp [Numeral.text, Numeral.sign, Numeral.pointed, Numeral.suffix, hdrop]
    · have hfill : (d.leading + 1 - d.digits.length).toNat =
          d.leading.toNat + 1 - d.digits.length := by omega
      rw [Decimal.numeral_of_ge hplain hneg hlt, if_pos (by omega), hfill]
      simp [Numeral.text, Numeral.sign, Numeral.pointed, Numeral.suffix]
  · rw [Decimal.numeral_of_not_plain hplain, if_neg (by omega), if_neg (by omega),
      if_neg (by omega), splitAt, if_pos (show 1 ≤ d.digits.length from hlength)]
    obtain ⟨c, cs, hds⟩ := List.exists_cons_of_ne_nil d.digits_ne_nil
    rw [hds]
    cases cs <;> simp [Numeral.text, Numeral.sign, Numeral.pointed, Numeral.suffix]

end Writer

end Lox.Number
