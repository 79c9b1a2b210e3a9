/-!
# Instructions

The machine has nine instructions. Each has a byte, which a program stores, and a glyph, which a
listing shows. All but `halt` also have a source character, and a character that belongs to no
instruction is a comment.
-/

namespace TapeMachine

/-- An instruction of the tape machine. -/
inductive Opcode where
  /-- Moves the pointer one cell to the right. -/
  | moveRight
  /-- Moves the pointer one cell to the left. -/
  | moveLeft
  /-- Adds one to the cell under the pointer. -/
  | increment
  /-- Subtracts one from the cell under the pointer. -/
  | decrement
  /-- Writes the cell under the pointer as a character. -/
  | output
  /-- Reads a character into the cell under the pointer. -/
  | input
  /-- Skips past the matching `loopEnd` when the cell is zero. -/
  | loopStart
  /-- Jumps back to the matching `loopStart` when the cell is not zero. -/
  | loopEnd
  /-- Ends the program. -/
  | halt
deriving DecidableEq

namespace Opcode

/-- The byte that stands for an instruction in a program. -/
def byte : Opcode → UInt8
  | moveRight => 0
  | moveLeft => 1
  | increment => 2
  | decrement => 3
  | output => 4
  | input => 5
  | loopStart => 6
  | loopEnd => 7
  | halt => 8

/-- The instruction that a byte stands for, if any. -/
def ofByte? (b : UInt8) : Option Opcode :=
  match b with
  | 0 => some moveRight
  | 1 => some moveLeft
  | 2 => some increment
  | 3 => some decrement
  | 4 => some output
  | 5 => some input
  | 6 => some loopStart
  | 7 => some loopEnd
  | 8 => some halt
  | _ => none

/-- The instruction that a source character stands for; any other character is a comment. -/
def ofChar? (c : Char) : Option Opcode :=
  match c with
  | '>' => some moveRight
  | '<' => some moveLeft
  | '+' => some increment
  | '-' => some decrement
  | '.' => some output
  | ',' => some input
  | '[' => some loopStart
  | ']' => some loopEnd
  | _ => none

/-- The source character of an instruction; `halt` has none. -/
def char? : Opcode → Option Char
  | moveRight => some '>'
  | moveLeft => some '<'
  | increment => some '+'
  | decrement => some '-'
  | output => some '.'
  | input => some ','
  | loopStart => some '['
  | loopEnd => some ']'
  | halt => none

/-- The glyph of every byte that is no source instruction. -/
def haltGlyph : Char := '/'

/-- The glyph that a listing shows for an instruction. -/
def glyph (op : Opcode) : Char := op.char?.getD haltGlyph

/-- The glyph that a listing shows for any byte. -/
def glyphOfByte (b : UInt8) : Char := (ofByte? b).elim haltGlyph glyph

/-- Reading the byte of an instruction gives the instruction back. -/
@[simp]
theorem ofByte?_byte (op : Opcode) : ofByte? op.byte = some op := by
  cases op <;> rfl

/-- An instruction is read from its own byte only. -/
theorem eq_byte_of_ofByte? {b : UInt8} {op : Opcode} (h : ofByte? b = some op) : b = op.byte := by
  unfold ofByte? at h
  split at h <;> simp_all <;> subst h <;> rfl

/-- An instruction is read from its own source character only. -/
theorem ofChar?_eq_some_iff {c : Char} {op : Opcode} : ofChar? c = some op ↔ op.char? = some c := by
  constructor
  · intro h
    unfold ofChar? at h
    split at h <;> simp_all <;> subst h <;> rfl
  · intro h
    cases op <;> simp [char?] at h <;> subst h <;> rfl

end Opcode

end TapeMachine
