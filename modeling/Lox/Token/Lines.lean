import Lox.Token.Bytes
/-!
# Lines by offsets

Where the lines of a file start is found once, from the line feeds among the bytes of its text. A
line is then cut out of the text between two offsets. As with tokens, a cut that would fall into the
middle of a character has no result.
-/

namespace Lox

/-- The offsets of the line feeds among the `n` bytes from `offset` on. -/
def lineFeeds (text : String) (offset n : Nat) : List Nat :=
  (List.range' offset n).filter (Scanner.isAt text (· = '\n'))

/-- The line number `i` of a text, counted from zero, whose lines start at the offsets `starts`. It
ends one byte before the next one starts, and the last one where the text ends. -/
def cutLine? (text : String) (starts : List Nat) (i : Nat) : Option (Option String) :=
  match starts[i]? with
  | none => some none
  | some first =>
    let stop := (starts[i + 1]?.map (· - 1)).getD text.utf8ByteSize
    (Scanner.slice? text first stop).map fun s => some (String.ofList (dropReturns s.toList))

namespace SourceFile

/-- The offsets at which lines start: one at the start of the text, and one after each line feed. -/
def lineStarts (f : SourceFile) : List Nat :=
  0 :: (lineFeeds f.text 0 f.text.utf8ByteSize).map (· + 1)

/-- The text of the line with number `n`, counted from one, by its offsets. -/
def lineAt? (f : SourceFile) (n : Nat) : Option (Option String) :=
  if n = 0 then some none else cutLine? f.text f.lineStarts (n - 1)

end SourceFile

end Lox
