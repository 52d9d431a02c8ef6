import Lox.Number.Shortest
/-!
# Writing numbers

A double is written with the digits of its shortest decimal. Two layouts are in use: tokens and
trees show every number in positional notation, and `print` changes to an exponent for very large
and very small numbers.
-/

namespace Lox.Number

/-- The highest of the sixty-four bits of a double. -/
def signBit : Nat := 9223372036854775808

/-- The decisions that the two layouts take differently. -/
structure Layout where
  /-- Whether a number whose point stands so many places after its first digit is written without an
  exponent. -/
  positional : Int → Bool
  infinity : String
  signedZero : Bool

namespace Layout

/-- Digits with the point after the first `point` of them, zeros filling up on either side. -/
def placePoint (digits : List Char) (point : Int) : List Char :=
  if point ≤ 0 then ['0', '.'] ++ List.replicate (-point).toNat '0' ++ digits
  else if point.toNat < digits.length then
    digits.take point.toNat ++ ['.'] ++ digits.drop point.toNat
  else digits ++ List.replicate (point.toNat - digits.length) '0'

/-- Digits with the point after the first of them, and an exponent that always has a sign. -/
def scientific (digits : List Char) (point : Int) : List Char :=
  let mantissa :=
    match digits with
    | [] => []
    | [d] => [d]
    | d :: ds => d :: '.' :: ds
  let e := point - 1
  mantissa ++ ['e', if e < 0 then '-' else '+'] ++ Nat.toDigits 10 e.natAbs

def decimal (l : Layout) (d : Decimal) : List Char :=
  let digits := Nat.toDigits 10 d.coefficient
  let point := Int.ofNat digits.length + d.exponent
  if l.positional point then placePoint digits point else scientific digits point

/-- The text of the bits of a double of sign zero that is a number. -/
def magnitude (l : Layout) (bits : Nat) : List Char :=
  if bits = 0 then ['0']
  else if bits = infinityBits then l.infinity.toList
  else l.decimal (shortest bits)

def text (l : Layout) (x : Float) : String :=
  let bits := x.toBits.toNat % signBit
  let negative := signBit ≤ x.toBits.toNat
  if infinityBits < bits then "NaN"
  else if negative ∧ (l.signedZero ∨ bits ≠ 0) then String.ofList ('-' :: l.magnitude bits)
  else String.ofList (l.magnitude bits)

end Layout

/-- Tokens and trees never use an exponent and keep the sign of a zero. -/
def plain : Layout := ⟨fun _ => true, "inf", true⟩

/-- Printed numbers have at most twenty-one digits before the point and begin with at most five
zeros after it, unless they are written with an exponent; a zero has no sign. -/
def printed : Layout := ⟨fun point => -6 < point ∧ point ≤ 21, "Infinity", false⟩

end Lox.Number
