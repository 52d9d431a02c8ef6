import Lox.Session.Live
import Std.Time.DateTime.Timestamp
/-!
# The program `lox`

Reads arguments, scripts and lines, and writes what they lead to. The clock is read
when a program reads it.
-/

namespace Lox

/-- The seconds since the epoch. -/
def systemTime : IO Float := do
  let nanoseconds := (← Std.Time.Timestamp.now).toNanosecondsSinceUnixEpoch.val
  return Float.ofInt (nanoseconds / 1000000000) + Float.ofInt (nanoseconds % 1000000000) / 1e9

/-- Answers each question for the time. -/
def Dialogue.hold {α : Type} : Dialogue α → IO α
  | answer a => return a
  | reading _ next => do (next (← systemTime)).hold

def readScript (path : String) : IO (Except ReadError ByteArray) := do
  try
    return .ok (← IO.FS.readBinFile path)
  catch e =>
    match e with
    | .noFileOrDirectory _ _ _ => return .error .notFound
    | .inappropriateType _ _ _ => return .error .isDirectory
    | e => return .error (.other (toString e))

/-- Writes what was left behind and gives the exit status. -/
def Transcript.emit (t : Transcript) : IO UInt32 := do
  (← IO.getStdout).write t.output
  IO.eprint t.errors
  return UInt32.ofNat t.exitCode

/-- Answers line after line until the input ends. -/
partial def Interactive.loop (i : Interactive) (input output : IO.FS.Stream) : IO UInt32 := do
  let line ← input.getLine
  if line.isEmpty then return 0
  match Entry.lines line.toList [] with
  | [] => Interactive.loop i input output
  | text :: _ =>
    match ← (i.converse ampleFuel text).hold with
    | some (reply, j) =>
      output.write reply.output
      output.flush
      IO.eprint reply.errors
      Interactive.loop j input output
    | none => return 70

def runLines (json : Bool) : IO UInt32 := do
  Interactive.loop ⟨.live, none, json⟩ (← IO.getStdin) (← IO.getStdout)

def runScript (f : SourceFile) (json : Bool) : IO UInt32 := do
  match ← (Transcript.converse ampleFuel f json).hold with
  | some t => t.emit
  | none => return 70

end Lox

open Lox in
def main (arguments : List String) : IO UInt32 := do
  let command := Command.ofArguments none false false arguments
  let bytes ←
    match command.path? with
    | some path => readScript path
    | none => pure (.error .notFound)
  Transcript.dispatch Transcript.emit runScript runLines (fun _ => bytes) command
