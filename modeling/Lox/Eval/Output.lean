/-!
# Output

What a program has printed, in bytes, and how many more bytes can be taken. A text that does not fit
is cut where the room ends.
-/

namespace Lox

structure Output where
  written : ByteArray
  /-- The number of bytes that still fit; none if there is no limit. -/
  room : Option Nat

namespace Output

/-- An output that takes everything. -/
def unlimited : Output := ⟨.empty, none⟩

/-- An output that takes no more than `n` bytes. -/
def limited (n : Nat) : Output := ⟨.empty, some n⟩

/-- Writes as much of a text as fits, and says whether that was all of it. -/
def write (o : Output) (s : String) : Bool × Output :=
  let bytes := s.toUTF8
  match o.room with
  | none => (true, { o with written := o.written ++ bytes })
  | some n =>
    if bytes.size ≤ n then (true, ⟨o.written ++ bytes, some (n - bytes.size)⟩)
    else (false, ⟨o.written ++ bytes.extract 0 n, some 0⟩)

/-- What was written after the first `n` bytes. -/
def since (o : Output) (n : Nat) : ByteArray := o.written.extract n o.written.size

/-- The longest text that the bytes begin with, if it leaves out no more than the
last `n` of them. -/
def longestText? : Nat → ByteArray → Option String
  | 0, bytes => String.fromUTF8? bytes
  | n + 1, bytes =>
    match String.fromUTF8? bytes with
    | some s => some s
    | none => longestText? n (bytes.extract 0 (bytes.size - 1))

/-- Bytes as text; U+FFFD stands for a character that was cut off at the end. A character has four
bytes at most, so no more than three are left of it. -/
def decode (bytes : ByteArray) : String :=
  match String.fromUTF8? bytes with
  | some s => s
  | none => (longestText? 3 bytes).getD "" ++ "\ufffd"

end Output

end Lox
