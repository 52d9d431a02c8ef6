import Lox.Proofs.Number.Writing
import Lox.Proofs.Token.Printing
/-!
# Printed numbers denote the number

A finite double is printed as the digits of its shortest decimal. The text denotes that
decimal, so two doubles that print alike are equal, and a text without a sign and an exponent
is a token of the number.
-/

namespace Lox.Number

variable {x y : Float} {d : Decimal}

/-- A decimal that the magnitude of a double can be written with: it is read back, and has no
zeros to be left out. -/
structure Decimal.Writes (d : Decimal) (x : Float) : Prop extends d.Trimmed where
  reads : d.nearestBits = magnitude x

/-- A double that is neither infinite nor no number. -/
def Finite (x : Float) : Prop := magnitude x < infinityBits

theorem writes_shortest (hx : Finite x) (hzero : magnitude x ≠ 0) :
    (shortest (magnitude x)).Writes x :=
  ⟨trimmed_shortest (Nat.pos_of_ne_zero hzero) hx,
    nearestBits_shortest (Nat.pos_of_ne_zero hzero) hx⟩

/-- A decimal that a finite double is written with is written without getting stuck. -/
theorem Decimal.Writes.write_eq (h : d.Writes x) (hx : Finite x) (hzero : magnitude x ≠ 0) :
    Writer.write x d.exponential = .ok (d.numeral (negative x)).text := by
  have hpos : 0 < d.nearestBits := by
    rw [h.reads]
    exact Nat.pos_of_ne_zero hzero
  obtain ⟨hlow, hhigh⟩ := leading_small hpos (h.reads ▸ hx)
  rw [Writer.write, if_neg (Nat.not_lt.mpr hx.le), if_neg hx.ne, if_neg hzero]
  exact Writer.rewrite_exponential _ hlow hhigh

theorem text_printed (x : Float) : printed.text x =
    if infinityBits < magnitude x then "NaN"
    else if negative x = true ∧ magnitude x ≠ 0 then
      String.ofList ('-' :: printed.magnitude (magnitude x))
    else String.ofList (printed.magnitude (magnitude x)) := by
  have hsign : (signBit ≤ x.toBits.toNat ∧ (printed.signedZero = true ∨ magnitude x ≠ 0)) ↔
      (negative x = true ∧ magnitude x ≠ 0) := by
    simp [negative, printed]
  rw [← if_congr hsign rfl rfl]
  rfl

theorem toList_printed (hx : Finite x) (hzero : magnitude x ≠ 0) :
    (printed.text x).toList = ((shortest (magnitude x)).numeral (negative x)).text := by
  rw [Decimal.text_numeral, text_printed, if_neg (Nat.not_lt.mpr hx.le), Layout.magnitude,
    if_neg hzero, if_neg hx.ne]
  cases negative x <;> simp [hzero]

theorem toList_printed_zero (hzero : magnitude x = 0) : (printed.text x).toList = ['0'] := by
  rw [text_printed, hzero, if_neg (by decide), if_neg (by simp)]
  rfl

/-! ### Doubles that print alike -/

/-- The number that a finite double is printed as. -/
def printedValue (x : Float) : ℚ :=
  if magnitude x = 0 then 0 else (if negative x then -1 else 1) * (shortest (magnitude x)).value

theorem valueOfText?_printed (hx : Finite x) :
    valueOfText? (printed.text x).toList = some (printedValue x) := by
  unfold printedValue
  split <;> rename_i hzero
  · have hdigit : Numeral.Proper ⟨false, ['0'], [], none⟩ :=
      ⟨List.cons_ne_nil _ _, List.forall_mem_singleton.mpr rfl⟩
    have htext : ['0'] = Numeral.text ⟨false, ['0'], [], none⟩ := rfl
    rw [toList_printed_zero hzero, htext, hdigit.valueOfText?_eq (k := 0) rfl]
    simp [Nat.ofDigitChars_cons]
  · rw [toList_printed hx hzero, Decimal.valueOfText?_numeral]

theorem toNat_toBits (x : Float) :
    x.toBits.toNat = (if negative x then signBit else 0) + magnitude x := by
  have hx : x.toBits.toNat < 2 * signBit := Nat.lt_of_lt_of_le x.toBits.toNat_lt (by decide)
  simp only [magnitude, negative, decide_eq_true_eq]
  generalize x.toBits.toNat = n at hx ⊢
  generalize signBit = s at hx ⊢
  split
  · rw [Nat.mod_eq_sub_mod ‹_›, Nat.mod_eq_of_lt (by omega)]
    omega
  · rw [Nat.mod_eq_of_lt (by omega), Nat.zero_add]

private theorem eq_of_bits (hmagnitude : magnitude x = magnitude y)
    (hnegative : negative x = negative y) : x = y := by
  have hbits : x.toBits = y.toBits := by
    rw [← UInt64.toNat_inj, toNat_toBits, toNat_toBits, hmagnitude, hnegative]
  rw [← Float.ofBits_toBits x, hbits, Float.ofBits_toBits]

private theorem beq_self (hx : Finite x) : (x == x) = true := by
  rw [← Bool.not_eq_false, Float.beq_self_eq_false_iff]
  rintro rfl
  exact absurd hx (by unfold Finite magnitude; decide +kernel)

/-- There are two zeros, and they are equal. -/
theorem eq_of_zero (hx : magnitude x = 0) :
    x = Float.ofBits 0 ∨ x = Float.ofBits (UInt64.ofNat signBit) := by
  have hbits := toNat_toBits x
  rw [hx, Nat.add_zero] at hbits
  rw [← Float.ofBits_toBits x, ← UInt64.ofNat_toNat (x := x.toBits), hbits]
  cases negative x
  · exact .inl rfl
  · exact .inr rfl

private theorem beq_of_zero (hx : magnitude x = 0) (hy : magnitude y = 0) : (x == y) = true := by
  obtain rfl | rfl := eq_of_zero hx <;> obtain rfl | rfl := eq_of_zero hy <;> decide +kernel

/-- Finite doubles that are printed as the same number are equal. -/
theorem beq_of_printedValue (hx : Finite x) (hy : Finite y) (h : printedValue x = printedValue y) :
    (x == y) = true := by
  have hpos : ∀ {x : Float}, Finite x → magnitude x ≠ 0 → 0 < (shortest (magnitude x)).value := by
    intro x hx hzero
    have hcoefficient := Nat.pos_of_ne_zero (writes_shortest hx hzero).pos
    unfold Decimal.value
    positivity
  have hsign : ∀ {v : ℚ} (b : Bool), 0 < v → (if b then -1 else 1) * v ≠ 0 := by
    rintro v (_ | _) hv <;> simp [hv.ne']
  unfold printedValue at h
  by_cases hx0 : magnitude x = 0 <;> by_cases hy0 : magnitude y = 0
  · exact beq_of_zero hx0 hy0
  · rw [if_pos hx0, if_neg hy0] at h
    exact absurd h.symm (hsign _ (hpos hy hy0))
  · rw [if_neg hx0, if_pos hy0] at h
    exact absurd h (hsign _ (hpos hx hx0))
  · have hx' := hpos hx hx0
    have hy' := hpos hy hy0
    rw [if_neg hx0, if_neg hy0] at h
    have hsame : negative x = negative y ∧
        (shortest (magnitude x)).value = (shortest (magnitude y)).value := by
      cases hnx : negative x <;> cases hny : negative y <;> simp [hnx, hny] at h ⊢ <;> linarith
    have hread := Decimal.nearestBits_congr hsame.2
    rw [(writes_shortest hx hx0).reads, (writes_shortest hy hy0).reads] at hread
    obtain rfl := eq_of_bits hread hsame.1
    exact beq_self hx

/-! ### Printed numbers are read back -/

/-- A positive number that is printed without an exponent is a token. -/
theorem lexeme_printed (hx : Finite x) (hzero : magnitude x ≠ 0) (hpositive : negative x = false)
    (hplain : -7 < (shortest (magnitude x)).leading ∧ (shortest (magnitude x)).leading < 21) :
    Lexeme (printed.text x).toList (.number x) := by
  obtain ⟨d, hd⟩ : ∃ d, d = shortest (magnitude x) := ⟨_, rfl⟩
  have hwrites := writes_shortest hx hzero
  have hbits := toNat_toBits x
  rw [hpositive] at hbits
  rw [toList_printed hx hzero, Decimal.text_numeral, hpositive]
  rw [← hd] at hplain hwrites ⊢
  have hfloat : d.toFloat = x := Decimal.toFloat_of_nearestBits (by
    rw [hwrites.reads, hbits]
    exact (Nat.zero_add _).symm)
  have hpositional : printed.positional (Int.ofNat d.digits.length + d.exponent) = true :=
    decide_eq_true (by rw [Decimal.leading_eq] at hplain; omega)
  have hlexeme := Lexeme.placePoint d
  rw [hfloat] at hlexeme
  change Lexeme (if printed.positional (Int.ofNat d.digits.length + d.exponent) then _ else _) _
  rw [if_pos hpositional]
  exact hlexeme

/-- A text that is one token is read as that token. -/
theorem ofText_lexeme {s : String} {k : TokenKind} (h : Lexeme s.toList k) :
    (Lexed.ofText s).errors = [] ∧ (Lexed.ofText s).tokens.map Token.kind = [k, .eof] := by
  obtain ⟨ps, hps, hread⟩ := Legible.nil.token h (by simp)
  rw [List.append_nil] at hps
  rw [Lexed.ofText, ← hps.eq_all]
  exact hread .start

/-! ### What is written -/

/-- The writer writes what is printed. -/
theorem write_shortest (x : Float) :
    Writer.write x (shortest (magnitude x)).exponential = .ok (printed.text x).toList := by
  by_cases hx : Finite x
  · by_cases hzero : magnitude x = 0
    · rw [toList_printed_zero hzero, Writer.write, if_neg (Nat.not_lt.mpr hx.le), if_neg hx.ne,
        if_pos hzero]
    · rw [(writes_shortest hx hzero).write_eq hx hzero, toList_printed hx hzero]
  · rw [Writer.write, text_printed]
    split
    · rfl
    · rename_i hnan
      have hinfinite : magnitude x = infinityBits :=
        Nat.le_antisymm (Nat.le_of_not_lt hnan) (Nat.le_of_not_lt hx)
      rw [if_pos hinfinite, hinfinite]
      cases negative x <;> rfl

/-- The writer has a text for every double, and it is what is printed. Of a finite double that is
not zero it is written from the text with an exponent of whatever decimal that is read back and has
no zero at its end, such as the shortest one: it denotes the same decimal, with the sign of the
double, has nothing in it that could be left out, and has an exponent only if that of the first
digit is out of bounds. So finite doubles that print alike are equal, and a positive one that prints
without an exponent is read back as a token. -/
theorem printed_denotes :
    (∀ x, Writer.write x (shortest (magnitude x)).exponential = .ok (printed.text x).toList) ∧
    (∀ x, Finite x → magnitude x ≠ 0 → (shortest (magnitude x)).Writes x ∧
      ∀ d : Decimal, d.Writes x → valueOfText? d.exponential = some d.value ∧
        ∃ m : Numeral, Writer.write x d.exponential = .ok m.text ∧ m.Tidy ∧
          m.negative = negative x ∧
          valueOfText? m.text = some ((if negative x then -1 else 1) * d.value) ∧
          ('e' ∉ m.text ↔ -7 < d.leading ∧ d.leading < 21)) ∧
    (∀ x y, Finite x → Finite y → printed.text x = printed.text y → (x == y) = true) ∧
    ∀ x, Finite x → magnitude x ≠ 0 → negative x = false →
      -7 < (shortest (magnitude x)).leading ∧ (shortest (magnitude x)).leading < 21 →
      (Lexed.ofText (printed.text x)).errors = [] ∧
        (Lexed.ofText (printed.text x)).tokens.map Token.kind = [.number x, .eof] := by
  refine ⟨write_shortest, fun x hx hzero => ⟨writes_shortest hx hzero, fun d hd => ?_⟩,
    fun x y hx hy h => ?_, ?_⟩
  · refine ⟨d.valueOfText?_exponential, d.numeral (negative x), hd.write_eq hx hzero,
      hd.tidy_numeral _,
      Decimal.negative_numeral, d.valueOfText?_numeral _, ?_⟩
    rw [Decimal.mem_text_numeral, not_not]
  · refine beq_of_printedValue hx hy ?_
    have hvalue := valueOfText?_printed hx
    rw [h, valueOfText?_printed hy] at hvalue
    exact (Option.some.inj hvalue).symm
  · exact fun x hx hzero hpositive hplain =>
      ofText_lexeme (lexeme_printed hx hzero hpositive hplain)

theorem printed_denotes_tiny :
    (Finite (-2.5e-8) ∧ magnitude (-2.5e-8) ≠ 0 ∧ Decimal.Writes ⟨25, -9⟩ (-2.5e-8)) ∧
    (∃ m : Numeral, Writer.write (-2.5e-8) (Decimal.exponential ⟨25, -9⟩) = .ok m.text ∧ m.Tidy ∧
      'e' ∈ m.text) ∧
    ((-0.0 : Float) == 0) = true ∧
    (Lexed.ofText (printed.text 123.456)).tokens.map Token.kind = [.number 123.456, .eof] := by
  obtain ⟨-, hwrite, hequal, hread⟩ := printed_denotes
  have hfinite : Finite (-2.5e-8) := by
    unfold Finite
    decide +kernel
  have hzero : magnitude (-2.5e-8) ≠ 0 := by decide +kernel
  have hwrites : Decimal.Writes ⟨25, -9⟩ (-2.5e-8) := ⟨⟨by decide⟩, by decide +kernel⟩
  obtain ⟨-, m, htext, htidy, -, -, hplain⟩ := (hwrite _ hfinite hzero).2 _ hwrites
  have hfinite' : Finite 123.456 := by
    unfold Finite
    decide +kernel
  have hzeros : ∀ x : Float, x = -0.0 ∨ x = 0 → Finite x := by
    rintro x (rfl | rfl) <;> (unfold Finite; decide +kernel)
  refine ⟨⟨hfinite, hzero, hwrites⟩, ⟨m, htext, htidy, ?_⟩, ?_, ?_⟩
  · by_contra hmark
    exact absurd (hplain.mp hmark) (by decide)
  · exact hequal _ _ (hzeros _ (.inl rfl)) (hzeros _ (.inr rfl)) (by decide +kernel)
  · exact (hread _ hfinite' (by decide +kernel) (by decide +kernel) (by decide +kernel)).2

end Lox.Number
