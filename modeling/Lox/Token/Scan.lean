import Lox.Token.Basic
import Lox.Diagnostic.Basic
/-!
# From text to tokens

A text is cut into pieces, each as long as it can be: a token, a stretch of blank text, or a stretch
that is an error. No piece is empty and together they are the text. The tokens and the errors then
get their spans from the positions at which their pieces stand.
-/

namespace Lox

inductive LexicalError where
  | unexpectedCharacter (c : Char)
  | unterminatedString
deriving DecidableEq, Repr

instance : Reportable LexicalError where
  code
    | .unexpectedCharacter _ => ⟨100⟩
    | .unterminatedString => ⟨101⟩
  message
    | .unexpectedCharacter c => s!"Unexpected character '{c}'."
    | .unterminatedString => "Unterminated string."

/-- What a piece of text means. -/
inductive Meaning where
  | blank
  | token (kind : TokenKind)
  | error (e : LexicalError)

structure Piece where
  meaning : Meaning
  text : List Char

namespace Piece

/-- Blanks between tokens: space, tab and the two characters that end lines. -/
def isBlank (c : Char) : Bool := c = ' ' || c = '\t' || c = '\r' || c = '\n'

def isLetter (c : Char) : Bool := c.isAlpha || c = '_'

def isLetterOrDigit (c : Char) : Bool := c.isAlphanum || c = '_'

/-- The double that digits with a fractional part denote. -/
def numberOfDigits (whole fraction : List Char) : Float :=
  Number.Decimal.toFloat ⟨Nat.ofDigitChars 10 (whole ++ fraction) 0, -Int.ofNat fraction.length⟩

/-- The fractional part at the start of a text: a point and at least one digit. -/
def fraction? : List Char → Option (List Char)
  | '.' :: d :: ds => if d.isDigit then some (d :: ds.takeWhile Char.isDigit) else none
  | _ => none

/-- The number that starts with the digit `c`. -/
def number (c : Char) (cs : List Char) : Piece :=
  let whole := c :: cs.takeWhile Char.isDigit
  match fraction? (cs.dropWhile Char.isDigit) with
  | some fraction => ⟨.token (.number (numberOfDigits whole fraction)), whole ++ '.' :: fraction⟩
  | none => ⟨.token (.number (numberOfDigits whole [])), whole⟩

/-- The identifier or reserved word that starts with the letter `c`. -/
def word (c : Char) (cs : List Char) : Piece :=
  let text := c :: cs.takeWhile isLetterOrDigit
  let s := String.ofList text
  match Keyword.ofText? s with
  | some w => ⟨.token (.keyword w), text⟩
  | none => ⟨.token (.identifier s), text⟩

/-- The string whose opening quote stands before `cs`; without a closing quote it
takes in all the rest. -/
def string (cs : List Char) : Piece :=
  let body := cs.takeWhile (· ≠ '"')
  if body.length < cs.length then ⟨.token (.string (String.ofList body)), '"' :: body ++ ['"']⟩
  else ⟨.error .unterminatedString, '"' :: cs⟩

/-- A comment runs up to the end of its line, which is not part of it. -/
def comment (cs : List Char) : Piece := ⟨.blank, '/' :: cs.takeWhile (· ≠ '\n')⟩

/-- The symbol that starts with `s`, which is the character `c`. -/
def symbol (c : Char) (s : Symbol) (cs : List Char) : Piece :=
  match s.withEq?, cs.head? with
  | some t, some '=' => ⟨.token (.symbol t), [c, '=']⟩
  | _, _ => ⟨.token (.symbol s), [c]⟩

/-- The first piece of the text `c :: cs`. -/
def first (c : Char) (cs : List Char) : Piece :=
  if isBlank c then ⟨.blank, [c]⟩
  else if c = '/' ∧ cs.head? = some '/' then comment cs
  else if c = '"' then string cs
  else if c.isDigit then number c cs
  else if isLetter c then word c cs
  else
    match Symbol.ofChar? c with
    | some s => symbol c s cs
    | none => ⟨.error (.unexpectedCharacter c), [c]⟩

/-- The pieces of a text no longer than `fuel`. -/
def split : Nat → List Char → List Piece
  | _, [] => []
  | 0, _ :: _ => []
  | fuel + 1, c :: cs =>
    let p := first c cs
    p :: split fuel ((c :: cs).drop p.text.length)

/-- The pieces of a text, in order. -/
def all (cs : List Char) : List Piece := split cs.length cs

end Piece

/-- The tokens of a text and the errors met on the way. -/
structure Lexed where
  tokens : List Token
  errors : List (Located LexicalError)

namespace Lexed

/-- Gives the tokens and errors among `pieces` their spans, the first piece standing at `p`. The
mark at the end stands where the text ends. -/
def ofPieces (p : Position) : List Piece → Lexed
  | [] => ⟨[⟨.eof, .point p⟩], []⟩
  | piece :: pieces =>
    let q := p.afterAll piece.text
    let rest := ofPieces q pieces
    match piece.meaning with
    | .blank => rest
    | .token kind => { rest with tokens := ⟨kind, .upTo p q⟩ :: rest.tokens }
    | .error e => { rest with errors := ⟨e, .upTo p q⟩ :: rest.errors }

def ofText (s : String) : Lexed := ofPieces .start (Piece.all s.toList)

end Lexed

end Lox
