import Lox.Text.Blank
/-!
# Entries

An interactive entry goes on over further lines as long as it has more opening than closing braces
and parentheses, or an open string. Brackets in strings and comments do not count, and a closing
bracket makes up for any opening one.
-/

namespace Lox.Entry

/-- Where in a text a character stands. -/
inductive Mode where
  | code
  | string
  | comment
deriving DecidableEq, Repr

/-- By how much a character of code changes the number of open brackets. -/
def weight (c : Char) : Int :=
  if c = '\x7b' ∨ c = '(' then 1
  else if c = '\x7d' ∨ c = ')' then -1
  else 0

/-- Whether a string is open at the end of the text, and how many brackets are. -/
def scan : Mode → Int → List Char → Bool × Int
  | mode, depth, [] => (mode = .string, depth)
  | .string, depth, c :: cs => scan (if c = '"' then .code else .string) depth cs
  | .comment, depth, c :: cs => scan (if c = '\n' then .code else .comment) depth cs
  | .code, depth, '/' :: '/' :: cs => scan .comment depth cs
  | .code, depth, c :: cs =>
    if c = '"' then scan .string depth cs else scan .code (depth + weight c) cs

/-- Whether an entry is ready to run. -/
def isComplete (s : String) : Bool :=
  let (openString, depth) := scan .code 0 s.toList
  !openString && depth ≤ 0

/-- The lines of a text read as input: each ends with a line feed, before which one carriage return
is dropped; a last line without a line feed counts if it is not empty. -/
def lines : List Char → List Char → List String
  | [], [] => []
  | [], line => [String.ofList line.reverse]
  | '\n' :: cs, '\r' :: line => String.ofList line.reverse :: lines cs []
  | '\n' :: cs, line => String.ofList line.reverse :: lines cs []
  | c :: cs, line => lines cs (c :: line)

end Lox.Entry
