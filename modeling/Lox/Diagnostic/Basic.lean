import Lox.Source.File
/-!
# Diagnostics

A diagnostic is an error as it is shown to a reader: the file, a code, a message, the span
that caused it, and the source line on which that span starts. The code alone says which
stage it belongs to.
-/

namespace Lox

inductive Category where
  | grammar
  | resolution
  | runtime
deriving DecidableEq, Repr

def Category.text : Category → String
  | grammar => "syntax"
  | resolution => "resolution"
  | runtime => "runtime"

structure ErrorCode where
  number : Nat
deriving DecidableEq, Repr

namespace ErrorCode

/-- Codes from 200 are about names, codes from 300 about running; all others are about the text. -/
def category (c : ErrorCode) : Category :=
  if 200 ≤ c.number ∧ c.number ≤ 299 then .resolution
  else if 300 ≤ c.number ∧ c.number ≤ 399 then .runtime
  else .grammar

def text (c : ErrorCode) : String := s!"E{c.number}"

end ErrorCode

/-- Errors that can be shown: they have a code and a message. -/
class Reportable (ε : Type) where
  code : ε → ErrorCode
  message : ε → String

structure Diagnostic where
  file : String
  code : ErrorCode
  message : String
  span : Span
  sourceLine : String
deriving Repr

namespace Diagnostic

/-- A diagnostic about `span` in the file `f`, with the line on which the span starts. -/
def inFile (f : SourceFile) (code : ErrorCode) (message : String) (span : Span) : Diagnostic where
  file := f.name
  code := code
  message := message
  span := span
  sourceLine := (f.line? span.first.line).getD ""

def ofError {ε : Type} [Reportable ε] (f : SourceFile) (e : Located ε) : Diagnostic :=
  .inFile f (Reportable.code e.item) (Reportable.message e.item) e.span

def category (d : Diagnostic) : Category := d.code.category

/-- One line: place, code, category and message. -/
def summary (d : Diagnostic) : String :=
  s!"{d.span.text}: {d.code.text} [{d.category.text}] {d.message}"

/-- The number of carets: one per column of a span on one line, and one for a longer span. -/
def caretCount (d : Diagnostic) : Nat :=
  if d.span.last.line = d.span.first.line then d.span.last.column - d.span.first.column + 1 else 1

/-- A report of five lines: the message, the place, and the source line with
carets under the span. -/
def render (d : Diagnostic) : String :=
  let number := toString d.span.first.line
  let gutter := "".pushn ' ' number.length
  let padding := "".pushn ' ' (d.span.first.column - 1)
  let carets := "".pushn '^' d.caretCount
  s!"error[{d.code.text}]: {d.message}\n"
    ++ s!"{gutter}--> {d.file}:{d.span.text}\n"
    ++ s!"{gutter} |\n"
    ++ s!"{number} | {d.sourceLine}\n"
    ++ s!"{gutter} | {padding}{carets}"

end Diagnostic

end Lox
