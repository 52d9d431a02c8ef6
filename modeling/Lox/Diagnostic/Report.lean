import Lox.Diagnostic.Sink
import Lox.Text.Json
/-!
# Diagnostics as JSON

The members of a diagnostic, of a sink and of the report of a run, in the order in
which they are written.
-/

namespace Lox

def Diagnostic.toJson (d : Diagnostic) : Json :=
  .object [
    ("file", .string d.file),
    ("code", .number d.code.number),
    ("category", .string d.category.text),
    ("message", .string d.message),
    ("line", .number d.span.first.line),
    ("column", .number d.span.first.column),
    ("end_line", .number d.span.last.line),
    ("end_column", .number d.span.last.column),
    ("source_line", .string d.sourceLine)]

def Diagnostics.toJson (s : Diagnostics) : Json :=
  .object [("errors", .array (s.kept.map Diagnostic.toJson)), ("total_errors", .number s.total)]

/-- Whether a run succeeded, and what it reported. -/
structure Report where
  success : Bool
  errors : Diagnostics

def Report.toJson (r : Report) : Json :=
  .object [("success", .bool r.success), ("errors", r.errors.toJson)]

end Lox
