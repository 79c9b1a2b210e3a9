import Mathlib.Data.List.DropRight
import TapeMachine.Source.Lexer

/-!
# Places in a source text

A place is known from the text before it: its line from the newlines there, its column from the code
points behind the last of them. A lexer moves one code point at a time, so wherever it stops, what it
has read and what is left are the text, and its place is the one behind what it has read.
-/

namespace TapeMachine

/-- The place right behind a text that starts a source. -/
def Place.behind (text : List Char) : Place where
  line := 1 + text.count '\n'
  column := 1 + (text.rtakeWhile (· ≠ '\n')).length
  offset := text.length

/-- One more code point moves the place on. -/
theorem Place.after_behind (text : List Char) (c : Char) :
    (Place.behind text).after c = .behind (text ++ [c]) := by
  by_cases hc : c = '\n'
  · simp [Place.after, Place.behind, hc, Nat.add_assoc]
  · simp [Place.after, Place.behind, hc, Nat.add_assoc]

namespace Lexer

/-- The lexer stands in a text, behind what it has read of it. -/
def StandsIn (text : List Char) (l : Lexer) : Prop :=
  ∃ taken, text = taken ++ l.rest ∧ l.place = .behind taken

variable {text : List Char} {l : Lexer}

/-- A new lexer stands at the start of its source. -/
theorem standsIn_ofString (source : String) : StandsIn source.toList (ofString source) :=
  ⟨[], rfl, rfl⟩

/-- Reading one code point leaves the lexer in its text. -/
theorem StandsIn.after {p : Place} {c : Char} {cs : List Char} (h : StandsIn text ⟨p, c :: cs⟩) :
    StandsIn text ⟨p.after c, cs⟩ := by
  obtain ⟨taken, rfl, rfl⟩ := h
  exact ⟨taken ++ [c], by simp, Place.after_behind taken c⟩

/-- Looking for a token leaves the lexer in its text. -/
theorem StandsIn.scan {p : Place} {cs : List Char} (h : StandsIn text ⟨p, cs⟩) :
    StandsIn text (scan p cs).2 := by
  induction cs generalizing p with
  | nil => exact h
  | cons c cs ih =>
    rw [Lexer.scan]
    cases Opcode.ofChar? c with
    | none => exact ih h.after
    | some op => exact h.after

/-- Reading tokens leaves the lexer in its text. -/
theorem StandsIn.take (h : StandsIn text l) (n : Nat) : StandsIn text (l.take n).2 := by
  induction n generalizing l with
  | zero => exact h
  | succ n ih =>
    have hnext : StandsIn text l.next?.2 := h.scan
    rw [Lexer.take]
    split
    · next hread =>
      rw [hread] at hnext
      exact hnext
    · next hread =>
      rw [hread] at hnext
      exact ih hnext

end Lexer

end TapeMachine
