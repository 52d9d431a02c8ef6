import Lox.Text.Unseen
/-!
# Quoted text

A text between double quotes in which every character can be seen: quotes and backslashes are
escaped, line feed, carriage return, tab and NUL have short escapes, and any other character without
a mark of its own is written by its code point in hexadecimal.
-/

namespace Lox.Quoted

/-- The escape by code point. -/
def codePoint (c : Char) : List Char :=
  ['\\', 'u', '\x7b'] ++ Nat.toDigits 16 c.toNat ++ ['\x7d']

/-- The characters that stand for `c`. -/
def escape (c : Char) : List Char :=
  if c = '"' then ['\\', '"']
  else if c = '\\' then ['\\', '\\']
  else if c = '\n' then ['\\', 'n']
  else if c = '\r' then ['\\', 'r']
  else if c = '\t' then ['\\', 't']
  else if c = '\x00' then ['\\', '0']
  else if c.toNat < 0x20 then codePoint c
  else if c.toNat < 0x7f then [c]
  else if Unseen.contains c then codePoint c
  else [c]

def encode (s : String) : String :=
  String.ofList ('"' :: s.toList.flatMap escape ++ ['"'])

end Lox.Quoted
