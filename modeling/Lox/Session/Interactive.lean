import Lox.Session.Basic
import Lox.Session.Entry
/-!
# Interactive sessions

Lines are collected to entries, and each entry that is not blank is run in one session. What an
entry reports is shown at once, and the session goes on.
-/

namespace Lox

structure Interactive where
  session : Session
  /-- The lines of an entry that goes on. -/
  pending : Option String
  /-- Whether errors are shown as JSON. -/
  json : Bool

/-- What is written in answer to some input. -/
structure Reply where
  output : ByteArray
  errors : String

namespace Interactive

def initial (clock : Nat → Float) (json : Bool) : Interactive := ⟨.initial clock, none, json⟩

/-- What is shown of an outcome. -/
def errorText (json : Bool) (o : Outcome) : String :=
  if o.isOk then ""
  else if json then o.diagnostics.toJson.compact ++ "\n"
  else o.diagnostics.render ++ "\n"

/-- Takes one more line, and gives the entry to run if the line completes one that is not blank. -/
def take (line : String) (i : Interactive) : Interactive × Option SourceFile :=
  let entry :=
    match i.pending with
    | some before => before ++ "\n" ++ line
    | none => line
  if !Entry.isComplete entry then ({ i with pending := some entry }, none)
  else
    ({ i with pending := none },
      if Blank.isBlank entry then none else some ⟨i.session.entryName, entry⟩)

/-- What is shown of an entry that has run. -/
def reply (i : Interactive) : Outcome × Session → Reply × Interactive := fun (o, s) =>
  (⟨s.machine.output.since i.session.machine.output.written.size, errorText i.json o⟩,
    { i with session := s })

/-- Takes one more line and runs the entry that it completes. -/
def feed (fuel : Nat) (line : String) (i : Interactive) : Option (Reply × Interactive) :=
  match i.take line with
  | (j, none) => some (⟨.empty, ""⟩, j)
  | (j, some f) => (j.session.run fuel f).map j.reply

/-- Takes lines in order and gives all that is written in answer. -/
def feedAll (fuel : Nat) (i : Interactive) : List String → Option Reply
  | [] => some ⟨.empty, ""⟩
  | line :: rest => do
    let (r, i) ← i.feed fuel line
    let t ← feedAll fuel i rest
    some ⟨r.output ++ t.output, r.errors ++ t.errors⟩

end Interactive

end Lox
