import TapeMachine.Console.Terminal
import TapeMachine.Machine.Basic
import TapeMachine.Machine.Error

/-!
# One step of the machine

A step fetches the instruction under the instruction pointer, counts it, carries it out and moves
on. A step that fails leaves the machine as it was, but for the counter once the instruction was
fetched. Loops are resolved as they are met: an entered loop is kept on a stack, and a loop that is
not entered is skipped by a scan for its end, which keeps the loops inside it on the same stack.
-/

namespace TapeMachine

/-- Whether a machine goes on after a step. -/
inductive Progress where
  | running
  | halted
deriving DecidableEq

/--
Go on with the scan for the end of a loop from position `ip`, over at most `n` bytes. The scan keeps the
loops it is inside on top of the stack; `above` of the entries are its own, and it is over when there
are none left. A `halt` or the end of the bytes means that the loop has no end, and what the scan has left
on the stack is taken off; bytes that stand for no instruction are passed over.
-/
def Program.skipFrom (p : Program) : (n ip above : Nat) → List Nat → Option Nat × List Nat
  | _, ip, 0, stack => (some ip, stack)
  | 0, _, above + 1, stack => (none, stack.drop (above + 1))
  | n + 1, ip, above + 1, stack =>
    match (p.get? (ip + 1)).map Opcode.ofByte? with
    | none => (none, stack.drop (above + 1))
    | some (some .halt) => (none, stack.drop (above + 1))
    | some (some .loopStart) => p.skipFrom n (ip + 1) (above + 2) ((ip + 1) :: stack)
    | some (some .loopEnd) => p.skipFrom n (ip + 1) above (stack.drop 1)
    | some _ => p.skipFrom n (ip + 1) (above + 1) stack

/-- Scan for the loop end that matches the loop start at `start`, on the stack of open loops. -/
def Program.skipLoop (p : Program) (start : Nat) (stack : List Nat) : Option Nat × List Nat :=
  p.skipFrom (p.size - (start + 1)) start 1 (start :: stack)

/-- The character of a cell value, if the value is a Unicode scalar value. -/
def charOfCell? (value : Int64) : Option Char :=
  if 0 ≤ value.toInt ∧ value.toInt.toNat.isValidChar then some (Char.ofNat value.toInt.toNat)
  else none

/-- The cell value of a character. -/
def cellOfChar (c : Char) : Int64 := Int64.ofNat c.toNat

namespace Machine

variable {κ : Type} [Console κ]

/-- The instruction under the instruction pointer. -/
def fetch (m : Machine) (p : Program) : Except RuntimeError Opcode :=
  if p.hasHeader then
    match p.get? m.ip with
    | none => .error (.corrupted m.ip .missingHalt)
    | some byte =>
      match Opcode.ofByte? byte with
      | none => .error (.unknownOpcode byte m.ip)
      | some op => .ok op
  else .error .missingHeader

/--
Carry out an instruction. Afterwards the instruction pointer stands on the last instruction that was
passed: the same one, or the bracket that was jumped to.
-/
def exec (p : Program) (op : Opcode) (m : Machine) (c : κ) :
    Except RuntimeError Unit × Machine × κ :=
  match op with
  | .moveRight =>
    (.ok (), { m with tape := m.tape.advance m.pointer, pointer := m.pointer + 1 }, c)
  | .moveLeft =>
    match m.pointer with
    | 0 => (.error (.pointerUnderflow m.ip), m, c)
    | pointer + 1 => (.ok (), { m with pointer }, c)
  | .increment => (.ok (), { m with tape := m.tape.modify m.pointer (· + 1) }, c)
  | .decrement => (.ok (), { m with tape := m.tape.modify m.pointer (· - 1) }, c)
  | .output =>
    match charOfCell? m.currentCell with
    | none => (.error (.invalidCodepoint m.currentCell), m, c)
    | some char =>
      match Console.writeChar char c with
      | (.error e, c) => (.error (.io e), m, c)
      | (.ok (), c) => (.ok (), m, c)
  | .input =>
    match Console.readLine c with
    | (.error e, c) => (.error (.io e), m, c)
    | (.ok line, c) =>
      match line.bind (·.toList.head?) with
      | none => (.ok (), m, c)
      | some char => (.ok (), { m with tape := m.tape.set m.pointer (cellOfChar char) }, c)
  | .loopStart =>
    if m.currentCell = 0 then
      match p.skipLoop m.ip m.loopStack with
      | (none, loopStack) => (.error (.corrupted m.ip .unclosedLoop), { m with loopStack }, c)
      | (some ip, loopStack) => (.ok (), { m with ip, loopStack }, c)
    else (.ok (), { m with loopStack := m.ip :: m.loopStack }, c)
  | .loopEnd =>
    match m.loopStack with
    | [] => (.error (.corrupted m.ip .strayLoopEnd), m, c)
    | start :: outer =>
      if m.currentCell = 0 then (.ok (), { m with loopStack := outer }, c)
      else (.ok (), { m with ip := start }, c)
  | .halt => (.ok (), m, c)

/-- Count an instruction. -/
def count (m : Machine) : Machine := { m with steps := m.steps + 1 }

/-- Move on to the next instruction. -/
def next (m : Machine) : Machine := { m with ip := m.ip + 1 }

/-- Fetch and carry out one instruction; on `halt` the machine stays where it is. -/
def step (p : Program) (m : Machine) (c : κ) : Except RuntimeError Progress × Machine × κ :=
  match m.fetch p with
  | .error e => (.error e, m, c)
  | .ok .halt => (.ok .halted, m, c)
  | .ok op =>
    match exec p op m.count c with
    | (.error e, m, c) => (.error e, m, c)
    | (.ok (), m, c) => (.ok .running, m.next, c)

end Machine

end TapeMachine
