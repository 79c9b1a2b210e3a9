import TapeMachine.Machine.Step

/-!
# The scan for the end of a loop

The scan works on the stack of open loops, with its own entries on top of those that were there. Whether
it ends at a loop end or fails at any depth, it takes off what it has put on. So the stack is as before,
and the position that it finds depends on the number of its own entries only.
-/

namespace TapeMachine

/--
Scan for the end of a loop from position `ip` on, over at most `n` bytes and with `depth` loops open
inside it. A `halt` or the end of the bytes means that there is no such end; bytes that stand for no
instruction are passed over.
-/
def Program.scanLoop (p : Program) : (n ip depth : Nat) → Option Nat
  | 0, _, _ => none
  | n + 1, ip, depth =>
    match (p.get? ip).map Opcode.ofByte? with
    | none => none
    | some (some .halt) => none
    | some (some .loopStart) => p.scanLoop n (ip + 1) (depth + 1)
    | some (some .loopEnd) =>
      match depth with
      | 0 => some ip
      | depth + 1 => p.scanLoop n (ip + 1) depth
    | some _ => p.scanLoop n (ip + 1) depth

/-- The position of the loop end that matches the loop start at `start`. -/
def Program.loopEnd? (p : Program) (start : Nat) : Option Nat :=
  p.scanLoop (p.size - (start + 1)) (start + 1) 0

/-- The scan finds a position by its own entries alone, and leaves the others. -/
theorem Program.skipFrom_eq (p : Program) (n ip depth : Nat) (stack : List Nat) :
    p.skipFrom n ip (depth + 1) stack = (p.scanLoop n (ip + 1) depth, stack.drop (depth + 1)) := by
  induction n generalizing ip depth stack with
  | zero => rfl
  | succ n ih =>
    simp only [skipFrom, scanLoop]
    generalize (p.get? (ip + 1)).map Opcode.ofByte? = read
    rcases read with _ | _ | op
    · rfl
    · exact ih (ip + 1) depth stack
    · cases op with
      | halt => rfl
      | loopStart => exact ih (ip + 1) (depth + 1) ((ip + 1) :: stack)
      | loopEnd =>
        cases depth with
        | zero => rw [skipFrom]
        | succ depth =>
          -- The entry that this loop end takes off is one of the scan's own.
          dsimp only
          rw [ih, List.drop_drop, Nat.add_comm 1]
      | _ => exact ih (ip + 1) depth stack

/-- The scan finds the matching loop end, if there is one, and leaves the stack as it was. -/
theorem Program.skipLoop_eq (p : Program) (start : Nat) (stack : List Nat) :
    p.skipLoop start stack = (p.loopEnd? start, stack) :=
  p.skipFrom_eq _ start 0 (start :: stack)

/-- A loop start is passed to the matching loop end when the cell is zero, and opens a loop otherwise. -/
theorem Machine.exec_loopStart {κ : Type} [Console κ] (p : Program) (m : Machine) (c : κ) :
    exec p .loopStart m c =
      if m.currentCell = 0 then
        match p.loopEnd? m.ip with
        | none => (.error (.corrupted m.ip .unclosedLoop), m, c)
        | some ip => (.ok (), { m with ip }, c)
      else (.ok (), { m with loopStack := m.ip :: m.loopStack }, c) := by
  simp only [exec, Program.skipLoop_eq]
  cases p.loopEnd? m.ip <;> rfl

end TapeMachine
