/-!
# JSON text

The part of JSON that reports are written in, with its two layouts: all on one line without blanks,
and one member a line with an indent of two blanks. The members of an object keep their order.
-/

namespace Lox

inductive Json where
  | bool (b : Bool)
  | number (n : Nat)
  | string (s : String)
  | array (items : List Json)
  | object (members : List (String × Json))

namespace Json

/-- The two hexadecimal digits of a control character. -/
def hexPair (n : Nat) : List Char := [Nat.digitChar (n / 16), Nat.digitChar (n % 16)]

/-- The escaped form of a character in a string: quote, backslash and control characters are
escaped, the latter by their short names where they have one. -/
def escape (c : Char) : List Char :=
  if c = '"' then ['\\', '"']
  else if c = '\\' then ['\\', '\\']
  else if c = '\n' then ['\\', 'n']
  else if c = '\r' then ['\\', 'r']
  else if c = '\t' then ['\\', 't']
  else if c = '\x08' then ['\\', 'b']
  else if c = '\x0c' then ['\\', 'f']
  else if c.toNat < 32 then ['\\', 'u', '0', '0'] ++ hexPair c.toNat
  else [c]

def quote (s : String) : String :=
  String.ofList ('"' :: s.toList.flatMap escape ++ ['"'])

mutual

/-- The text on one line. -/
def compact : Json → String
  | bool b => toString b
  | number n => toString n
  | string s => quote s
  | array items => "[" ++ ",".intercalate (compactItems items) ++ "]"
  | object members => "\x7b" ++ ",".intercalate (compactMembers members) ++ "\x7d"

def compactItems : List Json → List String
  | [] => []
  | j :: js => j.compact :: compactItems js

def compactMembers : List (String × Json) → List String
  | [] => []
  | (k, j) :: ms => (quote k ++ ":" ++ j.compact) :: compactMembers ms

end

/-- Brackets around items that stand on lines of their own, one level deeper than `depth`. -/
def bracket (opening closing : String) (depth : Nat) (items : List String) : String :=
  if items.isEmpty then opening ++ closing
  else
    let inner := "\n".pushn ' ' (2 * (depth + 1))
    let outer := "\n".pushn ' ' (2 * depth)
    opening ++ inner ++ ("," ++ inner).intercalate items ++ outer ++ closing

mutual

/-- The indented text of a value that stands `depth` levels deep. -/
def indented (depth : Nat) : Json → String
  | bool b => toString b
  | number n => toString n
  | string s => quote s
  | array items => bracket "[" "]" depth (indentedItems (depth + 1) items)
  | object members => bracket "\x7b" "\x7d" depth (indentedMembers (depth + 1) members)

def indentedItems (depth : Nat) : List Json → List String
  | [] => []
  | j :: js => j.indented depth :: indentedItems depth js

def indentedMembers (depth : Nat) : List (String × Json) → List String
  | [] => []
  | (k, j) :: ms => (quote k ++ ": " ++ j.indented depth) :: indentedMembers depth ms

end

/-- The text with one member a line. -/
def pretty (j : Json) : String := j.indented 0

end Json

end Lox
