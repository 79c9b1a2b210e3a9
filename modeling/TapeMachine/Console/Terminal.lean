import TapeMachine.Console.Sink
import TapeMachine.Text.Utf8

/-!
# Consoles

A console is where a running program reads lines and writes characters; any of its operations may
fail. A terminal is the console over a stream of input bytes and a sink. It flushes the sink before
it reads, since what was written may be a prompt, and a failing flush leaves the input alone.
-/

namespace TapeMachine

/-- Where a program reads lines from and writes characters to. -/
class Console (κ : Type) where
  /-- Read one line without its terminator, or nothing once the input is used up. -/
  readLine : κ → Except IoError (Option String) × κ
  /-- Write one character. -/
  writeChar : Char → κ → Except IoError Unit × κ
  /-- Pass on all that was written. -/
  flush : κ → Except IoError Unit × κ

/-- Remove one carriage return from the end of a line. -/
def dropReturn (line : List UInt8) : List UInt8 :=
  if line.getLast? = some 13 then line.dropLast else line

/--
Cut the first line off a stream. A newline ends the line and is removed, together with one carriage
return right before it; without a newline the line is all that is left, as it stands.
-/
def cutLine (input : List UInt8) : List UInt8 × List UInt8 :=
  let line := input.takeWhile (· ≠ 10)
  match input.dropWhile (· ≠ 10) with
  | [] => (line, [])
  | _ :: rest => (dropReturn line, rest)

/-- A console over a stream of bytes and a sink. -/
structure Terminal where
  /-- The bytes not read yet. -/
  input : List UInt8 := []
  output : Sink := {}

namespace Terminal

/-- Flush, then read one line; a line that is not UTF-8 is used up and fails. -/
def readLine (t : Terminal) : Except IoError (Option String) × Terminal :=
  match t.output.flush with
  | (.error e, out) => (.error e, { t with output := out })
  | (.ok (), out) =>
    match t.input with
    | [] => (.ok none, { t with output := out })
    | b :: bs =>
      let (line, rest) := cutLine (b :: bs)
      match Text.ofBytes? line with
      | none => (.error .invalidUtf8, ⟨rest, out⟩)
      | some text => (.ok (some text), ⟨rest, out⟩)

/-- Write one character to the sink. -/
def writeChar (c : Char) (t : Terminal) : Except IoError Unit × Terminal :=
  let (r, out) := t.output.write c.toString
  (r, { t with output := out })

/-- Flush the sink. -/
def flush (t : Terminal) : Except IoError Unit × Terminal :=
  let (r, out) := t.output.flush
  (r, { t with output := out })

/-- Write pieces of text to the sink, up to the first failure. -/
def print (pieces : List String) (t : Terminal) : Except IoError Unit × Terminal :=
  let (r, out) := Writer.writeAll pieces t.output
  (r, { t with output := out })

instance : Console Terminal := ⟨readLine, writeChar, flush⟩

end Terminal

end TapeMachine
