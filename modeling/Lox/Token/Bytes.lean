import Lox.Token.Scan
import Lox.Diagnostic.Sink
/-!
# Scanning bytes

The scanner that goes over the bytes of a text, looks at one or two of them at a time and never
back. What it has gone over is cut out of the text by offsets. A cut that would fall into the middle
of a character has no result, and a loop has none if its fuel does not last.
-/

namespace Lox

/-- A place between the bytes of a text. -/
structure Mark where
  offset : Nat
  position : Position
deriving DecidableEq, Repr

/-- Whether a byte belongs to a character that has begun before it. -/
def isContinuation (b : UInt8) : Bool := b &&& 0xC0 == 0x80

namespace Mark

def start : Mark := ⟨0, .start⟩

/-- The mark after the byte `b`. Columns count characters, so a character counts with
its first byte only. -/
def past (m : Mark) (b : UInt8) : Mark where
  offset := m.offset + 1
  position :=
    if b = 10 then ⟨m.position.line + 1, 1⟩
    else if isContinuation b then m.position
    else ⟨m.position.line, m.position.column + 1⟩

end Mark

/-- A token and the bytes it was read from: those from `first` on, before `stop`. -/
structure Scanned extends Token where
  first : Nat
  stop : Nat

/-- The double that a text denotes, if it is digits or digits, a point and digits. -/
def numberOfText? (s : String) : Option Float :=
  let whole := s.toList.takeWhile Char.isDigit
  match s.toList.dropWhile Char.isDigit with
  | [] => if whole = [] then none else some (Piece.numberOfDigits whole [])
  | '.' :: fraction =>
    if whole = [] ∨ fraction = [] ∨ ¬ fraction.all Char.isDigit then none
    else some (Piece.numberOfDigits whole fraction)
  | _ :: _ => none

namespace Scanner

variable (text : String)

/-- More steps than there are bytes in the text. -/
def fuel : Nat := text.utf8ByteSize + 1

def byte? (offset : Nat) : Option UInt8 := text.toByteArray[offset]?

/-- Whether the byte at an offset is one of the characters `P`, which are single bytes. -/
def isAt (P : Char → Bool) (offset : Nat) : Bool :=
  (byte? text offset).any fun b => P (Char.ofUInt8 b)

/-- Goes on over bytes as long as they are as `P` says. -/
def skipWhile (P : UInt8 → Bool) : Nat → Mark → Option Mark
  | 0, _ => none
  | n + 1, m =>
    match byte? text m.offset with
    | some b => if P b then skipWhile P n (m.past b) else some m
    | none => some m

/-- Goes on over characters, where `P` says the same of all characters that are not single bytes. -/
def skip (P : Char → Bool) (m : Mark) : Option Mark :=
  skipWhile text (fun b => P (Char.ofUInt8 b)) (fuel text) m

/-- Goes on over blanks and comments. -/
def skipTrivia : Nat → Mark → Option Mark
  | 0, _ => none
  | n + 1, m =>
    match byte? text m.offset with
    | some b =>
      if Piece.isBlank (Char.ofUInt8 b) then skipTrivia n (m.past b)
      else if Char.ofUInt8 b = '/' && isAt text (· = '/') (m.offset + 1) then do
        let m ← skip text (· ≠ '\n') m
        skipTrivia n m
      else some m
    | none => some m

/-- The text between two offsets, unless one of them is in the middle of a character. -/
def slice? (first stop : Nat) : Option String :=
  if first ≤ stop ∧ String.Pos.Raw.IsValid text ⟨first⟩ ∧ String.Pos.Raw.IsValid text ⟨stop⟩ then
    some (String.Pos.Raw.extract text ⟨first⟩ ⟨stop⟩)
  else none

/-- Goes on over digits, and over a point and digits after them. -/
def skipNumber (m : Mark) : Option Mark := do
  let m ← skip text Char.isDigit m
  if isAt text (· = '.') m.offset && isAt text Char.isDigit (m.offset + 1) then
    skip text Char.isDigit (m.past '.'.toUInt8)
  else some m

/-- The rest of a number that starts at `first`. If its text denoted no double, it
would be `fallback`. -/
def number (fallback : Float) (first : Nat) (m : Mark) : Option (TokenKind × Mark) := do
  let m ← skipNumber text m
  let s ← slice? text first m.offset
  some (.number ((numberOfText? s).getD fallback), m)

def word (first : Nat) (m : Mark) : Option (TokenKind × Mark) := do
  let m ← skip text Piece.isLetterOrDigit m
  let s ← slice? text first m.offset
  match Keyword.ofText? s with
  | some w => some (.keyword w, m)
  | none => some (.identifier s, m)

/-- What is left of a string after its opening quote, which stands at `first`. -/
def string (first : Nat) (m : Mark) : Option (Except LexicalError TokenKind × Mark) := do
  let m ← skip text (· ≠ '"') m
  match byte? text m.offset with
  | none => some (.error .unterminatedString, m)
  | some b =>
    let m := m.past b
    let s ← slice? text first m.offset
    let body ← slice? s 1 (s.utf8ByteSize - 1)
    some (.ok (.string body), m)

def symbol (s : Symbol) (m : Mark) : TokenKind × Mark :=
  match s.withEq?, isAt text (· = '=') m.offset with
  | some t, true => (.symbol t, m.past '='.toUInt8)
  | _, _ => (.symbol s, m)

/-- A character that nothing starts with, from its first byte at `first` on. -/
def unexpected (first : Nat) (m : Mark) : Option (Except LexicalError TokenKind × Mark) := do
  let m ← skipWhile text isContinuation (fuel text) m
  let s ← slice? text first m.offset
  some (.error (.unexpectedCharacter (s.toList.head?.getD '\uFFFD')), m)

/-- What starts with the byte `b`, which is at `first` and before `m`. -/
def scan (fallback : Float) (first : Nat) (b : UInt8) (m : Mark) :
    Option (Except LexicalError TokenKind × Mark) :=
  let c := Char.ofUInt8 b
  if c = '"' then string text first m
  else if c.isDigit then (number text fallback first m).map fun r => (.ok r.1, r.2)
  else if Piece.isLetter c then (word text first m).map fun r => (.ok r.1, r.2)
  else
    match Symbol.ofChar? c with
    | some s => some (.ok (symbol text s m).1, (symbol text s m).2)
    | none => unexpected text first m

/-- The tokens from `m` on, and the errors with those that were found before. After an error
scanning goes on. -/
def lexFrom (f : SourceFile) (fallback : Float) :
    Nat → Mark → Diagnostics → Option (List Scanned × Diagnostics)
  | 0, _, _ => none
  | n + 1, m, errors => do
    let m ← skipTrivia f.text (fuel f.text) m
    match byte? f.text m.offset with
    | none => some ([⟨⟨.eof, .point m.position⟩, m.offset, m.offset⟩], errors)
    | some b =>
      let (found, m') ← scan f.text fallback m.offset b (m.past b)
      let span := Span.upTo m.position m'.position
      match found with
      | .ok kind =>
        let (tokens, errors) ← lexFrom f fallback n m' errors
        some (⟨⟨kind, span⟩, m.offset, m'.offset⟩ :: tokens, errors)
      | .error e => lexFrom f fallback n m' (errors.push (.ofError f ⟨e, span⟩))

def lex (f : SourceFile) (fallback : Float) : Option (List Scanned × Diagnostics) :=
  lexFrom f fallback (fuel f.text) .start .empty

end Scanner

end Lox
