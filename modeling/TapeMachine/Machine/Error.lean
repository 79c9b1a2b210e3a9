import TapeMachine.Console.IoError
import TapeMachine.Program

/-!
# Run-time errors

The reasons for which a running program stops without reaching `halt`.
-/

namespace TapeMachine

/-- What is wrong with the structure of a program. -/
inductive Corruption where
  /-- A loop end is executed while no loop is open. -/
  | strayLoopEnd
  /-- A loop that has to be skipped has no end. -/
  | unclosedLoop
  /-- The program's bytes end before a `halt`. -/
  | missingHalt
deriving DecidableEq

/-- The text of a corruption. -/
def Corruption.reason : Corruption → String
  | strayLoopEnd => "loop end without a loop start"
  | unclosedLoop => "loop start without a loop end"
  | missingHalt => "ran past the end of the program without halting"

/-- Why a run stopped. -/
inductive RuntimeError where
  /-- A move to the left of the first cell. -/
  | pointerUnderflow (ip : Nat)
  /-- Output of a value that is no Unicode scalar value. -/
  | invalidCodepoint (value : Int64)
  /-- The program is not properly formed. -/
  | corrupted (ip : Nat) (cause : Corruption)
  /-- A byte that stands for no instruction. -/
  | unknownOpcode (byte : UInt8) (ip : Nat)
  /-- The program does not start with the header. -/
  | missingHeader
  /-- The console failed. -/
  | io (cause : IoError)
deriving DecidableEq

/-- The text of a run-time error. -/
def RuntimeError.message : RuntimeError → String
  | pointerUnderflow ip =>
    "Attempt to go before the first cell on the tape (instruction " ++ toString ip ++ ")"
  | invalidCodepoint value =>
    "Cell value " ++ toString value.toInt ++ " is not a valid unicode scalar value"
  | corrupted ip cause =>
    "Maybe the bytecode is corrupted: " ++ cause.reason ++ " (instruction " ++ toString ip ++ ")"
  | unknownOpcode byte ip =>
    "Found unknown bytecode " ++ toString byte.toNat ++ " at run time (instruction " ++
      toString ip ++ "), maybe the bytecode is corrupted"
  | missingHeader => Program.missingHeaderMessage
  | io _ => "IO Error"

end TapeMachine
