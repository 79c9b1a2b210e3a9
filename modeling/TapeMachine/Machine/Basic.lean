import TapeMachine.Program
import TapeMachine.Tape

/-!
# The machine

A machine holds a tape, the two positions of a run, the loops that are open and a step counter. It
outlives a run, so that programs can be run one after the other on the same tape.
-/

namespace TapeMachine

/-- The state of execution. -/
structure Machine where
  tape : Tape
  /-- The index of the current cell. -/
  pointer : Nat := 0
  /-- The position of the next instruction in the program's bytes. -/
  ip : Nat := Program.entry
  /-- The positions of the loop starts that are open, innermost first. -/
  loopStack : List Nat := []
  /-- The number of instructions executed since the last reset, modulo 2^64. -/
  steps : UInt64 := 0
deriving DecidableEq

namespace Machine

/-- A machine with a tape of zeros. -/
def new (sizing : Sizing) : Machine := { tape := .new sizing }

/-- Zero the tape and return all positions and counters to their start. -/
def reset (m : Machine) : Machine := { tape := m.tape.reset }

/-- Go back to the first instruction with no open loop; tape and pointer stay. -/
def rewind (m : Machine) : Machine := { m with ip := Program.entry, loopStack := [] }

/-- The value of the cell under the pointer. -/
def currentCell (m : Machine) : Int64 := m.tape.get m.pointer

end Machine

end TapeMachine
