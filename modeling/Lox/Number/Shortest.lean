import Lox.Number.Nearest
/-!
# Shortest decimals

The decimal that a finite double is written as: of all decimals that are read back as that
double, one with the fewest digits, and of those the nearest. Two decimals equally near are
decided for the greater.
-/

namespace Lox.Number

/-- The number `mantissa * 2 ^ exponent`. -/
structure Binary where
  mantissa : Nat
  exponent : Int
deriving DecidableEq, Repr

namespace Binary

/-- The value of the bits of a finite double of sign zero. -/
def ofBits (bits : Nat) : Binary :=
  if bits < leadingBit then ⟨bits, -1074⟩
  else ⟨bits % leadingBit + leadingBit, Int.ofNat (bits / leadingBit) - 1075⟩

/-- The same number with all its decimal digits. -/
def toDecimal (b : Binary) : Decimal :=
  if 0 ≤ b.exponent then ⟨b.mantissa * Nat.pow 2 b.exponent.toNat, 0⟩
  else ⟨b.mantissa * Nat.pow 5 (-b.exponent).toNat, b.exponent⟩

end Binary

namespace Decimal

/-- The same number without up to `n` zeros at the end of its coefficient. -/
def trim : Nat → Decimal → Decimal
  | 0, d => d
  | n + 1, d => if d.coefficient % 10 = 0 then trim n ⟨d.coefficient / 10, d.exponent + 1⟩ else d

end Decimal

/-- The multiple of `10 ^ e` next to `num / den` that is read back as `bits`: of two the nearer, and
the greater if they are equally near. -/
def onGrid? (bits num den : Nat) (e : Int) : Option Decimal :=
  let (up, down) := scaled 10 1 e
  let low := num * down / (den * up)
  let rest := num * down % (den * up)
  let below : Decimal := ⟨low, e⟩
  let above : Decimal := ⟨low + 1, e⟩
  match below.nearestBits == bits, above.nearestBits == bits with
  | true, true => some (if 2 * rest < den * up then below else above)
  | true, false => some below
  | false, true => some above
  | false, false => none

/-- The first hit on the grids of `10 ^ e`, `10 ^ (e - 1)`, and so on, `n` of them. -/
def firstOnGrid? (bits num den : Nat) : Nat → Int → Option Decimal
  | 0, _ => none
  | n + 1, e =>
    match onGrid? bits num den e with
    | some d => some d
    | none => firstOnGrid? bits num den n (e - 1)

/-- The exponent of the first decimal digit of the positive `num / den`. -/
def leadingExponent (num den : Nat) : Int :=
  floorLog 10 num den
    (Int.ofNat (Nat.toDigits 10 num).length - Int.ofNat (Nat.toDigits 10 den).length)

/-- The shortest decimal of the bits of a finite positive double. Seventeen digits are enough to
tell two doubles apart. -/
def shortest (bits : Nat) : Decimal :=
  let b := Binary.ofBits bits
  let (num, den) := scaled 2 b.mantissa b.exponent
  let d := (firstOnGrid? bits num den 17 (leadingExponent num den)).getD b.toDecimal
  d.trim (Nat.toDigits 10 d.coefficient).length

end Lox.Number
