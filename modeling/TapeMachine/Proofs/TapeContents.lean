import Mathlib.Data.List.Basic
import TapeMachine.Proofs.Execution

/-!
# What a tape holds

A tape is known by its cells, all of which can be read, and by its highest index; how many cells it
holds is a matter of storage. Two tapes are alike when they differ in storage only, and every
operation keeps them alike.

On a tape that was never written behind its back the highest index lies on the tape and every cell
past it is zero. What an instruction can do to the tape and the pointer is said once here, so that
such invariants need no look at the instructions.
-/

namespace TapeMachine

namespace Tape

variable {t u : Tape}

/-- The highest index after a move to the right. -/
@[simp]
theorem highest_advance (t : Tape) (pointer : Nat) :
    (t.advance pointer).highest = max t.highest (pointer + 1) := rfl

/-- The highest index after a change. -/
@[simp]
theorem highest_modify (t : Tape) (index : Nat) (f : Int64 → Int64) :
    (t.modify index f).highest = max t.highest index := rfl

/-- Making room for a move leaves the tape long enough for it. -/
theorem lt_size_advance (t : Tape) (pointer : Nat) :
    t.size ≤ (t.advance pointer).size ∧ pointer + 1 < (t.advance pointer).size := by
  change t.cells.size ≤ (padded t.cells _).size ∧ pointer + 1 < (padded t.cells _).size
  rw [size_padded]
  split <;> omega

/-- A change makes the tape as long as the cell needs. -/
@[simp]
theorem size_modify (t : Tape) (index : Nat) (f : Int64 → Int64) :
    (t.modify index f).size = max t.size (index + 1) := by
  change ((padded t.cells (index + 1)).modify index f).size = max t.cells.size (index + 1)
  rw [Array.size_modify, size_padded]

/-- A new tape holds at least one cell. -/
theorem size_new_pos (sizing : Sizing) : 0 < (new sizing).size := by
  change 0 < (Array.replicate (max sizing.size 1) (0 : Int64)).size
  rw [Array.size_replicate]
  omega

/-- A reset keeps the cells that are held. -/
@[simp]
theorem size_reset (t : Tape) : t.reset.size = t.size := Array.size_mapIdx

/-- A reset zeroes the cells up to the highest index. -/
theorem get_reset (t : Tape) (index : Nat) :
    t.reset.get index = if index ≤ t.highest then 0 else t.get index := by
  simp only [reset, get, Array.getD_eq_getD_getElem?, Array.getElem?_mapIdx]
  cases t.cells[index]? with
  | none => simp
  | some value => simp

/-- The window lists the cells up to the highest index. -/
theorem toList_window (h : t.highest < t.size) :
    t.window.toList = (List.range (t.highest + 1)).map t.get := by
  have hsize : t.highest + 1 ≤ t.cells.size := h
  apply List.ext_getElem
  · simp [window, hsize]
  · intro i hi hi'
    have hlt : i < t.cells.size := by
      simp only [List.length_map, List.length_range] at hi'
      omega
    simp [window, get, hlt]

/-- Tapes with the same cells and the same highest index, which lies on both; they may hold
different numbers of cells and grow differently. -/
structure Alike (t u : Tape) : Prop where
  cells : ∀ index, t.get index = u.get index
  highest : t.highest = u.highest
  fits_left : t.highest < t.size
  fits_right : u.highest < u.size

namespace Alike

/-- New tapes are alike. -/
theorem new (a b : Sizing) : Alike (.new a) (.new b) where
  cells index := by rw [get_new, get_new]
  highest := rfl
  fits_left := size_new_pos a
  fits_right := size_new_pos b

/-- Tapes that are alike show the same window. -/
theorem window (h : Alike t u) : t.window = u.window := by
  apply Array.ext'
  rw [toList_window h.fits_left, toList_window h.fits_right, h.highest, funext h.cells]

/-- Making room for a move keeps tapes alike. -/
theorem advance (h : Alike t u) (pointer : Nat) : Alike (t.advance pointer) (u.advance pointer) := by
  have hleft := lt_size_advance t pointer
  have hright := lt_size_advance u pointer
  have hfits := h.fits_left
  have hfits' := h.fits_right
  refine ⟨fun index => ?_, ?_, ?_, ?_⟩
  · rw [get_advance, get_advance, h.cells]
  · rw [highest_advance, highest_advance, h.highest]
  · rw [highest_advance]
    omega
  · rw [highest_advance]
    omega

/-- A change keeps tapes alike. -/
theorem modify (h : Alike t u) (index : Nat) (f : Int64 → Int64) :
    Alike (t.modify index f) (u.modify index f) := by
  have hfits := h.fits_left
  have hfits' := h.fits_right
  refine ⟨fun i => ?_, ?_, ?_, ?_⟩
  · rw [get_modify, get_modify, h.cells]
  · rw [highest_modify, highest_modify, h.highest]
  · rw [highest_modify, size_modify]
    omega
  · rw [highest_modify, size_modify]
    omega

/-- A reset keeps tapes alike. -/
theorem reset (h : Alike t u) : Alike t.reset u.reset := by
  have hfits := h.fits_left
  have hfits' := h.fits_right
  refine ⟨fun index => ?_, rfl, ?_, ?_⟩
  · rw [get_reset, get_reset, h.highest, h.cells]
  · rw [size_reset]
    exact Nat.zero_lt_of_lt hfits
  · rw [size_reset]
    exact Nat.zero_lt_of_lt hfits'

end Alike

/-- The highest index lies on the tape, and every cell past it is zero. -/
structure Clean (t : Tape) : Prop where
  fits : t.highest < t.size
  zero : ∀ index, t.highest < index → t.get index = 0

namespace Clean

/-- A new tape is clean. -/
theorem new (sizing : Sizing) : Clean (.new sizing) :=
  ⟨size_new_pos sizing, fun index _ => get_new sizing index⟩

/-- Making room for a move appends zeros only. -/
theorem advance (h : Clean t) (pointer : Nat) : Clean (t.advance pointer) := by
  have hsize := lt_size_advance t pointer
  have hfits := h.fits
  refine ⟨?_, fun index hindex => ?_⟩
  · rw [highest_advance]
    omega
  · rw [highest_advance] at hindex
    rw [get_advance]
    exact h.zero index (by omega)

/-- A change raises the highest index to the cell that it changes. -/
theorem modify (h : Clean t) (index : Nat) (f : Int64 → Int64) : Clean (t.modify index f) := by
  have hfits := h.fits
  refine ⟨?_, fun i hi => ?_⟩
  · rw [highest_modify, size_modify]
    omega
  · rw [highest_modify] at hi
    rw [get_modify, if_neg (by omega)]
    exact h.zero i (by omega)

/-- A clean tape is zero everywhere after a reset. -/
theorem get_reset (h : Clean t) (index : Nat) : t.reset.get index = 0 := by
  rw [Tape.get_reset]
  split
  · rfl
  · exact h.zero index (by omega)

/-- A reset leaves a clean tape clean. -/
theorem reset (h : Clean t) : Clean t.reset := by
  refine ⟨?_, fun index _ => h.get_reset index⟩
  rw [size_reset]
  exact Nat.zero_lt_of_lt h.fits

end Clean

end Tape

/-- What an instruction does to the tape and the pointer. -/
inductive Touch (t : Tape) (pointer : Nat) : Tape → Nat → Prop where
  | nothing : Touch t pointer t pointer
  | right : Touch t pointer (t.advance pointer) (pointer + 1)
  | left {next : Nat} (hpointer : pointer = next + 1) : Touch t pointer t next
  | write (f : Int64 → Int64) : Touch t pointer (t.modify pointer f) pointer

/-- Whatever an instruction does to it, a clean tape stays clean. -/
theorem Touch.clean {t t' : Tape} {pointer next : Nat} (h : Touch t pointer t' next)
    (ht : t.Clean) : t'.Clean := by
  cases h with
  | nothing => exact ht
  | right => exact ht.advance pointer
  | left => exact ht
  | write f => exact ht.modify pointer f

namespace Machine

variable {κ : Type} [Console κ]

/-- An instruction touches the tape and the pointer in one of these ways, also when it fails. -/
theorem touch_of_exec (p : Program) (op : Opcode) (m : Machine) (c : κ) :
    Touch m.tape m.pointer (exec p op m c).2.1.tape (exec p op m c).2.1.pointer := by
  cases op with
  | moveRight => exact .right
  | moveLeft =>
    simp only [exec]
    split
    · exact .nothing
    · next hpointer => exact .left hpointer
  | increment => exact .write _
  | decrement => exact .write _
  | output =>
    simp only [exec]
    split
    · exact .nothing
    · split <;> exact .nothing
  | input =>
    simp only [exec]
    split
    · exact .nothing
    · split
      · exact .nothing
      · exact .write _
  | loopStart =>
    rw [exec_loopStart]
    split
    · split <;> exact .nothing
    · exact .nothing
  | loopEnd =>
    simp only [exec]
    split
    · exact .nothing
    · split <;> exact .nothing
  | halt => exact .nothing

/-- A step touches the tape and the pointer as its instruction does, if one is fetched. -/
theorem touch_of_step (p : Program) (m : Machine) (c : κ) :
    Touch m.tape m.pointer (step p m c).2.1.tape (step p m c).2.1.pointer := by
  unfold step
  split
  · exact .nothing
  · exact .nothing
  · next op _ _ =>
    have htouch := touch_of_exec p op m.count c
    split
    · next hexec =>
      rw [hexec] at htouch
      exact htouch
    · next hexec =>
      rw [hexec] at htouch
      exact htouch

end Machine

end TapeMachine
