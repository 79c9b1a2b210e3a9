import TapeMachine.Console.IoError

/-!
# Where text goes

A writer takes text a piece at a time and may refuse a piece or a flush. A sink is a writer that
collects its text, with an optional limit on the bytes it holds and on the flushes it grants.
-/

namespace TapeMachine

/-- Something text can be written to. -/
class Writer (ω : Type) where
  /-- Take a piece of text, whole or not at all. -/
  write : String → ω → Except IoError Unit × ω
  /-- Pass on all that was taken. -/
  flush : ω → Except IoError Unit × ω

/-- Write pieces of text one after the other, up to the first failure. -/
def Writer.writeAll {ω : Type} [Writer ω] : List String → ω → Except IoError Unit × ω
  | [], out => (.ok (), out)
  | piece :: pieces, out =>
    match Writer.write piece out with
    | (.error e, out) => (.error e, out)
    | (.ok (), out) => writeAll pieces out

/-- A writer that collects text. -/
structure Sink where
  /-- All text taken so far. -/
  text : String := ""
  /-- The number of bytes that fit in, if there is a limit. -/
  writeLimit : Option Nat := none
  /-- The number of flushes still granted, if there is a limit. -/
  flushBudget : Option Nat := none
deriving DecidableEq

namespace Sink

/-- Append a piece of text, unless it is not empty and would pass the limit. -/
def write (piece : String) (s : Sink) : Except IoError Unit × Sink :=
  if piece.isEmpty then (.ok (), s)
  else
    match s.writeLimit with
    | none => (.ok (), { s with text := s.text ++ piece })
    | some limit =>
      if s.text.utf8ByteSize + piece.utf8ByteSize ≤ limit then
        (.ok (), { s with text := s.text ++ piece })
      else (.error .sinkFull, s)

/-- Flush, as long as flushes are granted. -/
def flush (s : Sink) : Except IoError Unit × Sink :=
  match s.flushBudget with
  | none => (.ok (), s)
  | some 0 => (.error .flushRefused, s)
  | some (n + 1) => (.ok (), { s with flushBudget := some n })

/-- A sink that takes every piece and grants every flush. -/
def Unlimited (s : Sink) : Prop := s.writeLimit = none ∧ s.flushBudget = none

instance : Writer Sink := ⟨write, flush⟩

/-- An unlimited sink appends what is written. -/
theorem write_of_unlimited {s : Sink} (h : s.Unlimited) (piece : String) :
    s.write piece = (.ok (), { s with text := s.text ++ piece }) := by
  obtain ⟨text, limit, budget⟩ := s
  obtain ⟨rfl, rfl⟩ := h
  simp only [write]
  split
  · next he => simp [String.isEmpty_iff.mp he]
  · rfl

/-- An unlimited sink grants every flush and stays as it is. -/
theorem flush_of_unlimited {s : Sink} (h : s.Unlimited) : s.flush = (.ok (), s) := by
  obtain ⟨text, limit, budget⟩ := s
  obtain ⟨rfl, rfl⟩ := h
  rfl

end Sink

end TapeMachine
