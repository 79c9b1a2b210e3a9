import Mathlib.Logic.Function.Basic
import TapeMachine.Console.Terminal
import TapeMachine.Machine.Error
import TapeMachine.Proofs.Brackets

/-!
# Structured code and what it means

Structured code is a sequence of actions and loops with a body. Its meaning is given by rules, on a
tape without end whose cells wrap around, and says nothing of bytes, jumps, stacks or tape sizes.
A loop repeats its body while the current cell is not zero. Code that never ends has no derivation.

The rules carry the position of the code in a program for one reason: a move off the left end names
the position of the instruction at fault.
-/

namespace TapeMachine

/-- The instructions that are carried out in place. -/
inductive Action where
  | moveRight
  | moveLeft
  | increment
  | decrement
  | output
  | input
deriving DecidableEq

/-- The instruction of an action. -/
def Action.opcode : Action → Opcode
  | moveRight => .moveRight
  | moveLeft => .moveLeft
  | increment => .increment
  | decrement => .decrement
  | output => .output
  | input => .input

/-- A sequence of actions and loops. -/
inductive Code where
  | done
  | act (action : Action) (rest : Code)
  | loop (body rest : Code)
deriving DecidableEq

/-- Write code as a sequence of instructions, with brackets around the body of a loop. -/
def Code.opcodes : Code → List Opcode
  | done => []
  | act action rest => action.opcode :: rest.opcodes
  | loop body rest => .loopStart :: (body.opcodes ++ .loopEnd :: rest.opcodes)

/-- A tape without end, a pointer on it, and a console. -/
structure World (κ : Type) where
  cells : Nat → Int64
  pointer : Nat
  console : κ

namespace World

variable {κ : Type}

/-- The value under the pointer. -/
def cell (s : World κ) : Int64 := s.cells s.pointer

/-- Change the value under the pointer. -/
def write (s : World κ) (value : Int64) : World κ :=
  { s with cells := Function.update s.cells s.pointer value }

end World

variable {κ : Type} [Console κ]

/-- What the action at a position does to the world, and how it can fail. -/
inductive Action.Performs (ip : Nat) :
    Action → World κ → Except RuntimeError Unit → World κ → Prop where
  | moveRight {s : World κ} : Performs ip .moveRight s (.ok ()) { s with pointer := s.pointer + 1 }
  | moveLeft {s : World κ} (hpointer : 0 < s.pointer) :
      Performs ip .moveLeft s (.ok ()) { s with pointer := s.pointer - 1 }
  | underflow {s : World κ} (hpointer : s.pointer = 0) :
      Performs ip .moveLeft s (.error (.pointerUnderflow ip)) s
  | increment {s : World κ} : Performs ip .increment s (.ok ()) (s.write (s.cell + 1))
  | decrement {s : World κ} : Performs ip .decrement s (.ok ()) (s.write (s.cell - 1))
  /-- The character is the one whose scalar value the cell holds. -/
  | output {s : World κ} {char : Char} {console : κ} (hcell : s.cell.toInt = char.toNat)
      (hwrite : Console.writeChar char s.console = (.ok (), console)) :
      Performs ip .output s (.ok ()) { s with console }
  | outputFailed {s : World κ} {char : Char} {console : κ} {e : IoError}
      (hcell : s.cell.toInt = char.toNat)
      (hwrite : Console.writeChar char s.console = (.error e, console)) :
      Performs ip .output s (.error (.io e)) { s with console }
  | noCharacter {s : World κ} (hcell : ∀ char : Char, s.cell.toInt ≠ char.toNat) :
      Performs ip .output s (.error (.invalidCodepoint s.cell)) s
  /-- The first character of the next line is stored. -/
  | input {s : World κ} {line : String} {char : Char} {console : κ}
      (hread : Console.readLine s.console = (.ok (some line), console))
      (hline : line.toList.head? = some char) :
      Performs ip .input s (.ok ()) ({ s with console }.write (Int64.ofNat char.toNat))
  /-- An empty line and the end of the input leave the cell alone. -/
  | inputNothing {s : World κ} {line : Option String} {console : κ}
      (hread : Console.readLine s.console = (.ok line, console))
      (hline : line = none ∨ line = some "") : Performs ip .input s (.ok ()) { s with console }
  | inputFailed {s : World κ} {console : κ} {e : IoError}
      (hread : Console.readLine s.console = (.error e, console)) :
      Performs ip .input s (.error (.io e)) { s with console }

namespace Code

/-- What code at a position does to the world until it ends or fails. -/
inductive Eval : Nat → Code → World κ → Except RuntimeError Unit → World κ → Prop where
  | done {ip : Nat} {s : World κ} : Eval ip .done s (.ok ()) s
  | act {ip : Nat} {action : Action} {rest : Code} {s s' t : World κ} {r : Except RuntimeError Unit}
      (haction : action.Performs ip s (.ok ()) s') (hrest : Eval (ip + 1) rest s' r t) :
      Eval ip (.act action rest) s r t
  | actFailed {ip : Nat} {action : Action} {rest : Code} {s t : World κ} {e : RuntimeError}
      (haction : action.Performs ip s (.error e) t) : Eval ip (.act action rest) s (.error e) t
  | loopDone {ip : Nat} {body rest : Code} {s t : World κ} {r : Except RuntimeError Unit}
      (hcell : s.cell = 0) (hrest : Eval (ip + body.opcodes.length + 2) rest s r t) :
      Eval ip (.loop body rest) s r t
  | loopAgain {ip : Nat} {body rest : Code} {s s' t : World κ} {r : Except RuntimeError Unit}
      (hcell : s.cell ≠ 0) (hbody : Eval (ip + 1) body s (.ok ()) s')
      (hagain : Eval ip (.loop body rest) s' r t) : Eval ip (.loop body rest) s r t
  | loopFailed {ip : Nat} {body rest : Code} {s t : World κ} {e : RuntimeError}
      (hcell : s.cell ≠ 0) (hbody : Eval (ip + 1) body s (.error e) t) :
      Eval ip (.loop body rest) s (.error e) t

/-- Code at the first position of a program is carried out and the console flushed once; a flush
that fails spoils a success but not an earlier error. -/
inductive Finishes (code : Code) (s : World κ) : Except RuntimeError Unit → World κ → Prop where
  | flushed {r : Except RuntimeError Unit} {t : World κ} {console : κ}
      (heval : Eval Program.entry code s r t)
      (hflush : Console.flush t.console = (.ok (), console)) : Finishes code s r { t with console }
  | flushFailed {t : World κ} {console : κ} {e : IoError}
      (heval : Eval Program.entry code s (.ok ()) t)
      (hflush : Console.flush t.console = (.error e, console)) :
      Finishes code s (.error (.io e)) { t with console }
  | bothFailed {t : World κ} {console : κ} {e : RuntimeError} {e' : IoError}
      (heval : Eval Program.entry code s (.error e) t)
      (hflush : Console.flush t.console = (.error e', console)) :
      Finishes code s (.error e) { t with console }

end Code

/-- An action is neither a bracket nor `halt`. -/
theorem Action.opcode_plain (action : Action) :
    action.opcode.bracket? = none ∧ action.opcode ≠ .halt := by
  cases action <;> exact ⟨rfl, by decide⟩

/-- Every instruction that is neither a bracket nor `halt` is an action. -/
theorem exists_action {op : Opcode} (hop : op.bracket? = none) (hhalt : op ≠ .halt) :
    ∃ action : Action, action.opcode = op := by
  cases op with
  | moveRight => exact ⟨.moveRight, rfl⟩
  | moveLeft => exact ⟨.moveLeft, rfl⟩
  | increment => exact ⟨.increment, rfl⟩
  | decrement => exact ⟨.decrement, rfl⟩
  | output => exact ⟨.output, rfl⟩
  | input => exact ⟨.input, rfl⟩
  | loopStart => simp [Opcode.bracket?] at hop
  | loopEnd => simp [Opcode.bracket?] at hop
  | halt => contradiction

/-- Different actions have different instructions. -/
theorem Action.opcode_injective : Function.Injective Action.opcode := by
  intro a b h
  cases a <;> cases b <;> first | rfl | contradiction

namespace Code

/-- The instructions of code balance. -/
theorem balanced_opcodes (code : Code) : Balanced Opcode.bracket? code.opcodes := by
  induction code with
  | done => exact .nil
  | act action rest ih => exact .plain action.opcode_plain.1 ih
  | loop body rest ihbody ihrest => exact .loop rfl ihbody rfl ihrest

/-- No instruction of code is `halt`. -/
theorem halt_not_mem_opcodes (code : Code) : Opcode.halt ∉ code.opcodes := by
  induction code with
  | done => simp [opcodes]
  | act action rest ih => simp [opcodes, ih, action.opcode_plain.2.symm]
  | loop body rest ihbody ihrest => simp [opcodes, ihbody, ihrest]

/-- Balanced instructions without `halt` can be read as code. -/
theorem exists_opcodes_eq {ops : List Opcode} (hops : Balanced Opcode.bracket? ops)
    (hhalt : Opcode.halt ∉ ops) : ∃ code : Code, code.opcodes = ops := by
  induction hops with
  | nil => exact ⟨.done, rfl⟩
  | @plain op w hop _ ih =>
    rw [List.mem_cons, not_or] at hhalt
    obtain ⟨rest, rfl⟩ := ih hhalt.2
    obtain ⟨action, rfl⟩ := exists_action hop (Ne.symm hhalt.1)
    exact ⟨.act action rest, rfl⟩
  | @loop a b body rest ha _ hb _ ihbody ihrest =>
    obtain ⟨code, hcode⟩ := ihbody fun h => hhalt (by simp [h])
    obtain ⟨tail, htail⟩ := ihrest fun h => hhalt (by simp [h])
    obtain rfl := Opcode.bracket?_eq_opening.mp ha
    obtain rfl := Opcode.bracket?_eq_closing.mp hb
    exact ⟨.loop code tail, by rw [opcodes, hcode, htail]⟩

/-- Instructions can be read as code in one way only. -/
theorem opcodes_injective : Function.Injective Code.opcodes := by
  intro code
  induction code with
  | done =>
    intro other h
    cases other <;> first | rfl | contradiction
  | act action rest ih =>
    intro other h
    cases other with
    | done => contradiction
    | act action' rest' =>
      obtain ⟨hop, hrest⟩ := List.cons_eq_cons.mp h
      rw [Action.opcode_injective hop, ih hrest]
    | loop body' rest' =>
      have hplain := action.opcode_plain.1
      rw [(List.cons_eq_cons.mp h).1] at hplain
      contradiction
  | loop body rest ihbody ihrest =>
    intro other h
    cases other with
    | done => contradiction
    | act action' rest' =>
      have hplain := action'.opcode_plain.1
      rw [← (List.cons_eq_cons.mp h).1] at hplain
      contradiction
    | loop body' rest' =>
      have htail := (List.cons_eq_cons.mp h).2
      obtain ⟨hbody, hrest⟩ := closing_unique htail body.balanced_opcodes rfl body'.balanced_opcodes rfl
      rw [ihbody hbody, ihrest hrest]

/-- A move off the left end names the position of its instruction, and the pointer is at the end. -/
theorem Eval.underflow {ip k : Nat} {code : Code} {s t : World κ}
    (h : Eval ip code s (.error (.pointerUnderflow k)) t) :
    ∃ i, k = ip + i ∧ code.opcodes[i]? = some .moveLeft ∧ t.pointer = 0 := by
  generalize hr : Except.error (RuntimeError.pointerUnderflow k) = r at h
  induction h with
  | done => contradiction
  | act haction hrest ih =>
    obtain ⟨i, rfl, hi, ht⟩ := ih hr
    exact ⟨i + 1, by omega, by simpa [opcodes] using hi, ht⟩
  | actFailed haction =>
    cases haction with
    | underflow hpointer =>
      obtain rfl := RuntimeError.pointerUnderflow.inj (Except.error.inj hr)
      exact ⟨0, rfl, rfl, hpointer⟩
    | _ => simp at hr
  | @loopDone ip body rest s t r hcell hrest ih =>
    obtain ⟨i, rfl, hi, ht⟩ := ih hr
    refine ⟨body.opcodes.length + 2 + i, by omega, ?_, ht⟩
    rw [opcodes, show body.opcodes.length + 2 + i = (body.opcodes.length + (i + 1)) + 1 by omega,
      List.getElem?_cons_succ, List.getElem?_append_right (by omega)]
    simpa using hi
  | loopAgain hcell hbody hagain ihbody ihagain => exact ihagain hr
  | @loopFailed ip body rest s t e hcell hbody ih =>
    obtain ⟨i, rfl, hi, ht⟩ := ih hr
    obtain ⟨hlt, -⟩ := List.getElem?_eq_some_iff.mp hi
    refine ⟨i + 1, by omega, ?_, ht⟩
    rw [opcodes, List.getElem?_cons_succ, List.getElem?_append_left hlt, hi]

end Code

end TapeMachine
