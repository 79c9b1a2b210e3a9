import TapeMachine.Proofs.Execution
import TapeMachine.Proofs.Structured

/-!
# Steps perform actions

An instruction that is carried out in place does on the machine what its action does to the world:
the cells without end, the pointer and the console. The sizes of the tape, the step counter and the
loop stack are not part of the world, and the loop stack is left alone.
-/

namespace TapeMachine

/-- A cell holds a character exactly when it holds the scalar value of the character. -/
theorem charOfCell?_eq_some_iff {value : Int64} {char : Char} :
    charOfCell? value = some char ↔ value.toInt = char.toNat := by
  unfold charOfCell?
  refine ⟨fun h => ?_, fun h => ?_⟩
  · split at h
    · next hvalid =>
      obtain rfl : Char.ofNat value.toInt.toNat = char := by simpa using h
      have hnat : (Char.ofNat value.toInt.toNat).toNat = value.toInt.toNat := by
        rw [Char.ofNat, dif_pos hvalid.2]
        rfl
      omega
    · contradiction
  · have hnat : value.toInt.toNat = char.toNat := by omega
    rw [if_pos ⟨by omega, hnat ▸ char.valid⟩, hnat, Char.ofNat_toNat]

namespace Machine

variable {κ : Type} [Console κ] {p : Program} {m m' : Machine} {c c' : κ}

/-- What structured code sees of a machine and its console. -/
def world (m : Machine) (c : κ) : World κ := ⟨m.tape.get, m.pointer, c⟩

/-- Making room for a move changes nothing that structured code sees. -/
theorem get_advance_pointer (m : Machine) : (m.tape.advance m.pointer).get = m.tape.get := by
  funext index
  exact Tape.get_advance m.tape m.pointer index

/-- Changing the cell under the pointer is a write. -/
theorem get_modify_pointer (m : Machine) (f : Int64 → Int64) :
    (m.tape.modify m.pointer f).get = Function.update m.tape.get m.pointer (f m.currentCell) := by
  funext index
  rw [Tape.get_modify, Function.update_apply]
  split
  · next h => rw [h, currentCell]
  · rfl

/-- Carrying out the instruction of an action performs the action. -/
theorem performs_of_exec {action : Action} {r : Except RuntimeError Unit}
    (h : exec p action.opcode m c = (r, m', c')) :
    action.Performs m.ip (m.world c) r (m'.world c') := by
  cases action with
  | moveRight =>
    simp only [Action.opcode, exec, Prod.mk.injEq] at h
    obtain ⟨rfl, rfl, rfl⟩ := h
    simp only [world, get_advance_pointer]
    exact .moveRight
  | moveLeft =>
    simp only [Action.opcode, exec] at h
    split at h
    · next hpointer =>
      simp only [Prod.mk.injEq] at h
      obtain ⟨rfl, rfl, rfl⟩ := h
      exact .underflow hpointer
    · next pointer hpointer =>
      simp only [Prod.mk.injEq] at h
      obtain ⟨rfl, rfl, rfl⟩ := h
      have hpos : 0 < m.pointer := by omega
      have hmove : pointer = m.pointer - 1 := by omega
      rw [hmove]
      exact .moveLeft hpos
  | increment =>
    simp only [Action.opcode, exec, Prod.mk.injEq] at h
    obtain ⟨rfl, rfl, rfl⟩ := h
    simp only [world, get_modify_pointer]
    exact .increment
  | decrement =>
    simp only [Action.opcode, exec, Prod.mk.injEq] at h
    obtain ⟨rfl, rfl, rfl⟩ := h
    simp only [world, get_modify_pointer]
    exact .decrement
  | output =>
    simp only [Action.opcode, exec] at h
    split at h
    · next hnone =>
      simp only [Prod.mk.injEq] at h
      obtain ⟨rfl, rfl, rfl⟩ := h
      refine .noCharacter fun char hchar => ?_
      have hsome : charOfCell? m.currentCell = some char := charOfCell?_eq_some_iff.mpr hchar
      rw [hnone] at hsome
      contradiction
    · next char hchar =>
      have hcell := charOfCell?_eq_some_iff.mp hchar
      split at h
      · next e c₁ hwrite =>
        simp only [Prod.mk.injEq] at h
        obtain ⟨rfl, rfl, rfl⟩ := h
        exact .outputFailed hcell hwrite
      · next c₁ hwrite =>
        simp only [Prod.mk.injEq] at h
        obtain ⟨rfl, rfl, rfl⟩ := h
        exact .output hcell hwrite
  | input =>
    simp only [Action.opcode, exec] at h
    split at h
    · next e c₁ hread =>
      simp only [Prod.mk.injEq] at h
      obtain ⟨rfl, rfl, rfl⟩ := h
      exact .inputFailed hread
    · next line c₁ hread =>
      split at h
      · next hline =>
        simp only [Prod.mk.injEq] at h
        obtain ⟨rfl, rfl, rfl⟩ := h
        refine .inputNothing hread ?_
        cases line with
        | none => exact .inl rfl
        | some line => exact .inr (by simpa using hline)
      · next char hline =>
        simp only [Prod.mk.injEq] at h
        obtain ⟨rfl, rfl, rfl⟩ := h
        obtain ⟨line, rfl, hhead⟩ := Option.bind_eq_some_iff.mp hline
        simp only [world, Tape.set, get_modify_pointer]
        exact .input hread hhead

/-- Performing an action is carrying out its instruction. -/
theorem exec_of_performs {action : Action} {r : Except RuntimeError Unit} {t : World κ}
    (h : action.Performs m.ip (m.world c) r t) :
    ∃ m', exec p action.opcode m c = (r, m', t.console) ∧ m'.world t.console = t := by
  cases h with
  | moveRight => exact ⟨_, rfl, by simp only [world, get_advance_pointer]⟩
  | moveLeft hpointer =>
    obtain ⟨pointer, hsucc⟩ : ∃ pointer, m.pointer = pointer + 1 :=
      Nat.exists_eq_succ_of_ne_zero (Nat.ne_of_gt hpointer)
    refine ⟨{ m with pointer }, by simp [Action.opcode, exec, hsucc, world], ?_⟩
    simp [world, hsucc]
  | underflow hpointer =>
    have hzero : m.pointer = 0 := hpointer
    exact ⟨m, by simp [Action.opcode, exec, hzero, world], rfl⟩
  | increment => exact ⟨_, rfl, by simp only [world, get_modify_pointer]; rfl⟩
  | decrement => exact ⟨_, rfl, by simp only [world, get_modify_pointer]; rfl⟩
  | output hcell hwrite =>
    have hchar : charOfCell? m.currentCell = some _ := charOfCell?_eq_some_iff.mpr hcell
    have hwritten : Console.writeChar _ c = _ := hwrite
    exact ⟨m, by simp [Action.opcode, exec, hchar, hwritten], rfl⟩
  | outputFailed hcell hwrite =>
    have hchar : charOfCell? m.currentCell = some _ := charOfCell?_eq_some_iff.mpr hcell
    have hwritten : Console.writeChar _ c = _ := hwrite
    exact ⟨m, by simp [Action.opcode, exec, hchar, hwritten], rfl⟩
  | noCharacter hcell =>
    have hnone : charOfCell? m.currentCell = none := by
      rw [Option.eq_none_iff_forall_not_mem]
      intro char hchar
      exact hcell char (charOfCell?_eq_some_iff.mp hchar)
    exact ⟨m, by simp [Action.opcode, exec, hnone]; exact ⟨rfl, rfl⟩, rfl⟩
  | @input _ line char console hread hline =>
    have hline' : Console.readLine c = (.ok (some line), console) := hread
    refine ⟨{ m with tape := m.tape.set m.pointer (cellOfChar char) }, ?_, ?_⟩
    · simp only [Action.opcode, exec, hline', Option.bind_some, hline]
      rfl
    · simp only [world, Tape.set, get_modify_pointer]
      rfl
  | @inputNothing _ line console hread hline =>
    have hline' : Console.readLine c = (.ok line, console) := hread
    have hnothing : line.bind (·.toList.head?) = none := by
      rcases hline with rfl | rfl <;> rfl
    exact ⟨m, by simp only [Action.opcode, exec, hline', hnothing], rfl⟩
  | inputFailed hread =>
    have hline' : Console.readLine c = _ := hread
    exact ⟨m, by simp only [Action.opcode, exec, hline'], rfl⟩

/-- A step on an action passes to the next instruction and leaves the open loops alone. -/
theorem control_of_action {action : Action} (hfetch : m.fetch p = .ok action.opcode)
    (hstep : step p m c = (.ok .running, m', c')) :
    m'.ip = m.ip + 1 ∧ m'.loopStack = m.loopStack := by
  cases flow_of_step hstep with
  | plain _ _ _ hip hstack => exact ⟨hip, hstack⟩
  | _ hbracket =>
    rw [hfetch] at hbracket
    have hplain := action.opcode_plain.1
    rw [Except.ok.inj hbracket] at hplain
    contradiction

/-- A step on an action that succeeds moves on to the next instruction. -/
theorem step_of_performs {action : Action} {t : World κ} (hfetch : m.fetch p = .ok action.opcode)
    (h : action.Performs m.ip (m.world c) (.ok ()) t) :
    ∃ m', step p m c = (.ok .running, m', t.console) ∧ m'.world t.console = t ∧
      m'.ip = m.ip + 1 ∧ m'.loopStack = m.loopStack := by
  obtain ⟨m₁, hexec, hworld⟩ := exec_of_performs (m := m.count) (p := p) h
  have hstep := step_eq_running_iff.mpr ⟨_, m₁, hfetch, action.opcode_plain.2, hexec, rfl⟩
  exact ⟨m₁.next, hstep, hworld, control_of_action hfetch hstep⟩

/-- A step on an action that fails leaves what the action leaves. -/
theorem step_of_performs_error {action : Action} {t : World κ} {e : RuntimeError}
    (hfetch : m.fetch p = .ok action.opcode)
    (h : action.Performs m.ip (m.world c) (.error e) t) :
    ∃ m', step p m c = (.error e, m', t.console) ∧ m'.world t.console = t := by
  obtain ⟨m₁, hexec, hworld⟩ := exec_of_performs (m := m.count) (p := p) h
  exact ⟨m₁, step_eq_error_iff.mpr (.inr ⟨_, hfetch, action.opcode_plain.2, hexec⟩), hworld⟩

/-- A step on an action that goes on has performed the action. -/
theorem performs_of_step {action : Action} (hfetch : m.fetch p = .ok action.opcode)
    (hstep : step p m c = (.ok .running, m', c')) :
    action.Performs m.ip (m.world c) (.ok ()) (m'.world c') ∧ m'.ip = m.ip + 1 ∧
      m'.loopStack = m.loopStack := by
  obtain ⟨op, m₁, hop, -, hexec, rfl⟩ := step_eq_running_iff.mp hstep
  obtain rfl : action.opcode = op := by simpa [hfetch] using hop
  have hperforms : action.Performs m.count.ip (m.count.world c) (.ok ()) (m₁.world c') :=
    performs_of_exec hexec
  exact ⟨hperforms, control_of_action hfetch hstep⟩

/-- A step on an action that stops is one at which the action fails. -/
theorem performs_of_stops {action : Action} {r : Except RuntimeError Unit} {v : Machine × κ}
    (hfetch : m.fetch p = .ok action.opcode) (hstop : Stops (stepWith p) (m, c) r v) :
    ∃ e, r = .error e ∧ action.Performs m.ip (m.world c) (.error e) (v.1.world v.2) := by
  cases hstop with
  | halted hstep =>
    obtain ⟨hhalt, -, -⟩ := step_eq_halted_iff.mp hstep
    have hop : action.opcode = .halt := by simpa [hfetch] using hhalt
    exact absurd hop action.opcode_plain.2
  | @failed e _ hstep =>
    refine ⟨e, rfl, ?_⟩
    rcases step_eq_error_iff.mp hstep with ⟨hnone, -⟩ | ⟨op, hop, -, hexec⟩
    · simp [hfetch] at hnone
    · obtain rfl : action.opcode = op := by simpa [hfetch] using hop
      have hperforms : action.Performs m.count.ip (m.count.world c) (.error e) (v.1.world v.2) :=
        performs_of_exec hexec
      exact hperforms

end Machine

end TapeMachine
