import Lox.Number.Layout
/-!
# Rewriting a text with an exponent

The writer of printed numbers starts from a text with an exponent: the digits of the shortest
decimal with a point after the first of them. It takes this text apart into its digits and the
exponent, and lays the digits out anew. Each step that has no result for some texts says so.
-/

namespace Lox.Number

/-- Digits with a point after the first of them, unless it is the only one. -/
def mantissa : List Char → List Char
  | d :: e :: ds => d :: '.' :: e :: ds
  | ds => ds

/-- Decimal digits, after a minus if need be. -/
def integerText (n : Int) : List Char :=
  if n < 0 then '-' :: Nat.toDigits 10 n.natAbs else Nat.toDigits 10 n.natAbs

namespace Decimal

def digits (d : Decimal) : List Char := Nat.toDigits 10 d.coefficient

/-- The exponent of the first digit. -/
def leading (d : Decimal) : Int := Int.ofNat d.digits.length + d.exponent - 1

/-- The text with an exponent. -/
def exponential (d : Decimal) : List Char := mantissa d.digits ++ 'e' :: integerText d.leading

end Decimal

/-- The bits of a double without its sign. -/
def magnitude (x : Float) : Nat := x.toBits.toNat % signBit

def negative (x : Float) : Bool := signBit ≤ x.toBits.toNat

/-- The number that a text of digits denotes. -/
def natural? (ds : List Char) : Option Nat :=
  if ds ≠ [] ∧ ds.all Char.isDigit then some (Nat.ofDigitChars 10 ds 0) else none

/-- The number that digits denote, after a sign or not. -/
def integer? : List Char → Option Int
  | '-' :: ds => (natural? ds).map fun n => -Int.ofNat n
  | '+' :: ds => (natural? ds).map Int.ofNat
  | ds => (natural? ds).map Int.ofNat

namespace Writer

/-- Why a text could not be rewritten. -/
inductive Failure where
  | noExponent
  | noInteger
  | overflow
  | cutPastEnd
deriving DecidableEq, Repr

/-- A number that has to fit in 32 bits with a sign. -/
def checked (n : Int) : Except Failure Int :=
  if -2147483648 ≤ n ∧ n < 2147483648 then .ok n else .error .overflow

/-- What stands before the first `c` and what stands after it. -/
def splitOnce (c : Char) (cs : List Char) : Except Failure (List Char × List Char) :=
  match cs.dropWhile (· ≠ c) with
  | [] => .error .noExponent
  | _ :: after => .ok (cs.takeWhile (· ≠ c), after)

def parseExponent (cs : List Char) : Except Failure Int :=
  match integer? cs with
  | some n => checked n
  | none => .error .noInteger

/-- A text is not cut past its end. -/
def splitAt (n : Nat) (cs : List Char) : Except Failure (List Char × List Char) :=
  if n ≤ cs.length then .ok (cs.take n, cs.drop n) else .error .cutPastEnd

/-- The printed text of a number from its text with an exponent. -/
def rewrite (negative : Bool) (scientific : List Char) : Except Failure (List Char) := do
  let (mantissa, exponent) ← splitOnce 'e' scientific
  let exponent ← parseExponent exponent
  let digits := mantissa.filter (· ≠ '.')
  let length := Int.ofNat digits.length
  let point ← checked (exponent + 1)
  let sign := if negative then ['-'] else []
  if length ≤ point ∧ point ≤ 21 then
    .ok (sign ++ digits ++ List.replicate (point - length).toNat '0')
  else if 0 < point ∧ point ≤ 21 then
    let (whole, fraction) ← splitAt point.toNat digits
    .ok (sign ++ whole ++ '.' :: fraction)
  else if -6 < point ∧ point ≤ 0 then
    .ok (sign ++ ['0', '.'] ++ List.replicate point.natAbs '0' ++ digits)
  else
    let (first, rest) ← splitAt 1 digits
    let suffix := 'e' :: (if exponent < 0 then '-' else '+') :: Nat.toDigits 10 exponent.natAbs
    if rest.isEmpty then .ok (sign ++ first ++ suffix)
    else .ok (sign ++ first ++ '.' :: rest ++ suffix)

/-- The printed text of a double, from the text with an exponent of its magnitude. Only a number
that is finite and not zero needs that text. -/
def write (x : Float) (scientific : List Char) : Except Failure (List Char) :=
  if infinityBits < magnitude x then .ok "NaN".toList
  else if magnitude x = infinityBits then
    .ok (if negative x then "-Infinity".toList else "Infinity".toList)
  else if magnitude x = 0 then .ok ['0']
  else rewrite (negative x) scientific

end Writer

end Lox.Number
