/-!
# Reading decimals

The double nearest to a quotient of naturals, a half going to the even neighbour, computed exactly
on the bits of the result. A decimal is read as the double nearest to its value.
-/

namespace Lox.Number

/-- The quotient `c * b ^ e` as a numerator and a denominator. -/
def scaled (b c : Nat) (e : Int) : Nat × Nat :=
  if 0 ≤ e then (c * Nat.pow b e.toNat, 1) else (c, Nat.pow b (-e).toNat)

/-- `num / den` rounded to a natural number, a half going to the even neighbour. -/
def roundHalfEven (num den : Nat) : Nat :=
  let q := num / den
  let r := num % den
  if 2 * r < den then q
  else if den < 2 * r then q + 1
  else if q % 2 = 0 then q
  else q + 1

/-- The greatest `k` with `b ^ k ≤ num / den`, found next to the guess `k`. -/
def floorLog (b num den : Nat) (k : Int) : Int :=
  let (low, unit) := scaled b 1 k
  if den * low ≤ num * unit then k else k - 1

/-- The exponent of the last bit of a double near the positive `num / den`. -/
def unitExponent (num den : Nat) : Int :=
  max (floorLog 2 num den (Int.ofNat num.log2 - Int.ofNat den.log2) - 52) (-1074)

/-- The first bit above the fifty-two stored bits of a significand. -/
def leadingBit : Nat := 4503599627370496

/-- The bits of infinity, which are greater than those of every finite double of sign zero. -/
def infinityBits : Nat := 2047 * leadingBit

/-- The bits of the double nearest to `num / den`. A significand of 53 bits carries its leading one
into the exponent field, which is why the two are added. -/
def nearestBits (num den : Nat) : Nat :=
  if num = 0 then 0
  else
    let q := unitExponent num den
    let (up, down) := scaled 2 1 q
    min (roundHalfEven (num * down) (den * up) + (q + 1074).toNat * leadingBit) infinityBits

/-- The number `coefficient * 10 ^ exponent`. -/
structure Decimal where
  coefficient : Nat
  exponent : Int
deriving DecidableEq, Repr

namespace Decimal

def nearestBits (d : Decimal) : Nat :=
  let (num, den) := scaled 10 d.coefficient d.exponent
  Number.nearestBits num den

def toFloat (d : Decimal) : Float := Float.ofBits (UInt64.ofNat d.nearestBits)

end Decimal

end Lox.Number
