/-!
# The tape

A tape is a row of 64-bit cells, zero at first, with a hard end on the left and room to grow on the
right. It remembers the highest index that was reached, and its window is the part up to there.
Arithmetic on cells wraps around.

Lengths and indices stand for words of 64 bits. The sum that a length grows to wraps around as well.
An index and the one or two after it are plain naturals, which are what words give as long as
`pointer + 2` is below `UInt64.size`: no memory holds a tape with a cell further to the right.
-/

namespace TapeMachine

/-- How many cells a tape starts with, and how many it gains when the pointer passes its end. -/
structure Sizing where
  size : Nat
  growth : Nat
deriving DecidableEq

namespace Sizing

/-- Raise both numbers to at least one, since the pointer always has to stand on a cell. -/
def clamped (size growth : Nat) : Sizing := ⟨max size 1, max growth 1⟩

/-- The number of cells a tape starts with when nothing else is asked for. -/
def standardSize : Nat := 30000

/-- The number of cells a tape gains when nothing else is asked for. -/
def standardGrowth : Nat := 10000

end Sizing

/-- A growable row of cells. -/
structure Tape where
  /-- The cells that are held; every cell behind them reads as zero. -/
  cells : Array Int64
  /-- The number of cells added when the pointer passes the end. -/
  growth : Nat
  /-- The highest index that was reached or written. -/
  highest : Nat
deriving DecidableEq

namespace Tape

/-- A tape of zeros. -/
def new (sizing : Sizing) : Tape :=
  ⟨Array.replicate (max sizing.size 1) 0, max sizing.growth 1, 0⟩

/-- The number of cells that are held. -/
def size (t : Tape) : Nat := t.cells.size

/-- The value of a cell, zero past the end. -/
def get (t : Tape) (index : Nat) : Int64 := t.cells.getD index 0

/-- Append zeros until at least `n` cells are held. -/
def padded (cells : Array Int64) (n : Nat) : Array Int64 :=
  if n ≤ cells.size then cells else cells ++ Array.replicate (n - cells.size) 0

/-- Change a cell, appending zeros to reach it. -/
def modify : Tape → (index : Nat) → (Int64 → Int64) → Tape
  | ⟨cells, growth, highest⟩, index, f =>
    ⟨(padded cells (index + 1)).modify index f, growth, max highest index⟩

/-- Write a cell, appending zeros to reach it. -/
def set (t : Tape) (index : Nat) (value : Int64) : Tape := t.modify index fun _ => value

/--
Make room for a move from `pointer` to the next cell. Past the end the tape gains its growth, or
as many cells as the next index needs when the pointer was placed beyond that.

The cells held and the growth are added as words, without a check. A sum that does not fit comes out
small, and the tape then gets what the next index needs.
-/
def advance : Tape → (pointer : Nat) → Tape
  | ⟨cells, growth, highest⟩, pointer =>
    let next := pointer + 1
    let grown := (cells.size + growth) % UInt64.size
    let length := if next < cells.size then cells.size else max grown (next + 1)
    ⟨padded cells length, growth, max highest next⟩

/-- The cells from the first to the highest index reached. -/
def window (t : Tape) : Array Int64 := t.cells.extract 0 (t.highest + 1)

/-- Zero the cells of the window and forget the highest index; the cells stay held. -/
def reset (t : Tape) : Tape :=
  { t with cells := t.cells.mapIdx fun i v => if i ≤ t.highest then 0 else v, highest := 0 }

/-- Every cell of a new tape is zero. -/
@[simp]
theorem get_new (sizing : Sizing) (index : Nat) : (new sizing).get index = 0 := by
  simp only [new, get, Array.getD_eq_getD_getElem?, Array.getElem?_replicate]
  split <;> rfl

/-- Appending zeros leaves at least the cells that were asked for. -/
theorem size_padded (cells : Array Int64) (n : Nat) : (padded cells n).size = max cells.size n := by
  unfold padded
  split
  · omega
  · simp only [Array.size_append, Array.size_replicate]
    omega

/-- Appending zeros changes no cell. -/
theorem getD_padded (cells : Array Int64) (n index : Nat) :
    (padded cells n).getD index 0 = cells.getD index 0 := by
  unfold padded
  split
  · rfl
  · simp only [Array.getD_eq_getD_getElem?, Array.getElem?_append, Array.getElem?_replicate]
    split
    · rfl
    · rw [Array.getElem?_eq_none (by omega)]
      split <;> rfl

/-- Making room for a move changes no cell. -/
@[simp]
theorem get_advance (t : Tape) (pointer index : Nat) : (t.advance pointer).get index = t.get index :=
  getD_padded t.cells _ index

/-- Changing a cell changes that cell only. -/
theorem get_modify (t : Tape) (i index : Nat) (f : Int64 → Int64) :
    (t.modify i f).get index = if index = i then f (t.get index) else t.get index := by
  simp only [modify, get]
  rw [← getD_padded t.cells (i + 1) index]
  have hsize : i < (padded t.cells (i + 1)).size := by
    rw [size_padded]
    omega
  simp only [Array.getD_eq_getD_getElem?, Array.getElem?_modify]
  by_cases h : i = index
  · subst h
    rw [if_pos rfl, if_pos rfl, Array.getElem?_eq_getElem hsize]
    rfl
  · rw [if_neg h, if_neg (Ne.symm h)]

end Tape

end TapeMachine
