import Lox.Source.Span
/-!
# Source files

A source file is a text with a name. Its lines are what stands between line feeds, so a text without
a line feed has one line; the carriage returns that end a line do not belong to it.
-/

namespace Lox

/-- The pieces of a text between its line feeds. -/
def splitLines : List Char → List (List Char)
  | [] => [[]]
  | c :: cs =>
    if c = '\n' then [] :: splitLines cs
    else
      match splitLines cs with
      | [] => [[c]]
      | l :: ls => (c :: l) :: ls

/-- A line without the carriage returns at its end. -/
def dropReturns (l : List Char) : List Char :=
  (l.reverse.dropWhile (· = '\r')).reverse

structure SourceFile where
  name : String
  text : String
deriving Repr

namespace SourceFile

def lines (f : SourceFile) : List (List Char) := splitLines f.text.toList

def lineCount (f : SourceFile) : Nat := f.lines.length

/-- The text of the line with number `n`, counted from one. -/
def line? (f : SourceFile) (n : Nat) : Option String :=
  if n = 0 then none
  else f.lines[n - 1]?.map fun l => String.ofList (dropReturns l)

end SourceFile

end Lox
