import TapeMachine.Proofs.TapeContents

/-!
# Machines in step

Two machines are in step when the second stands where the first does, a fixed number of positions
further on in its program, and when neither their tapes nor their consoles can be told apart. A step
then ends on both in the same way and leaves them in step, as long as both find the same instruction
and the same end of a loop. Which tapes and consoles cannot be told apart is a parameter: it is
equality or something weaker, and all that matters is that every operation respects it.
-/

namespace TapeMachine

/-- The same error of a program that starts `shift` positions further on. -/
def RuntimeError.shift (shift : Nat) : RuntimeError → RuntimeError
  | .pointerUnderflow ip => .pointerUnderflow (ip + shift)
  | .corrupted ip cause => .corrupted (ip + shift) cause
  | .unknownOpcode byte ip => .unknownOpcode byte (ip + shift)
  | .invalidCodepoint value => .invalidCodepoint value
  | .missingHeader => .missingHeader
  | .io cause => .io cause

/-- The same result of a program that starts `shift` positions further on. -/
def shiftResult {ρ : Type} (shift : Nat) (r : Except RuntimeError ρ) : Except RuntimeError ρ :=
  r.mapError (RuntimeError.shift shift)

/-- A shift by nothing changes no result. -/
@[simp]
theorem shiftResult_zero {ρ : Type} (r : Except RuntimeError ρ) : shiftResult 0 r = r := by
  cases r with
  | ok => rfl
  | error e => cases e <;> rfl

/-- A relation between tapes that reading cannot tell apart and that every change respects. -/
structure Tape.Respected (alike : Tape → Tape → Prop) : Prop where
  get : ∀ {t u}, alike t u → ∀ index, t.get index = u.get index
  advance : ∀ {t u}, alike t u → ∀ pointer, alike (t.advance pointer) (u.advance pointer)
  modify : ∀ {t u}, alike t u → ∀ index f, alike (t.modify index f) (u.modify index f)

/-- A relation between consoles that reading and writing cannot tell apart and that both respect. -/
structure Console.Respected {κ : Type} [Console κ] (same : κ → κ → Prop) : Prop where
  readLine : ∀ {c d : κ}, same c d →
    (readLine c).1 = (readLine d).1 ∧ same (readLine c).2 (readLine d).2
  writeChar : ∀ (char : Char) {c d : κ}, same c d →
    (writeChar char c).1 = (writeChar char d).1 ∧ same (writeChar char c).2 (writeChar char d).2

/-- Equal tapes cannot be told apart. -/
theorem Tape.respected_eq : Tape.Respected Eq where
  get h _ := congrArg (Tape.get · _) h
  advance h _ := congrArg (Tape.advance · _) h
  modify h _ _ := congrArg (Tape.modify · _ _) h

/-- Tapes that differ in storage only cannot be told apart. -/
theorem Tape.respected_alike : Tape.Respected Alike where
  get h := h.cells
  advance h := h.advance
  modify h := h.modify

/-- Equal consoles cannot be told apart. -/
theorem Console.respected_eq {κ : Type} [Console κ] : Console.Respected (Eq : κ → κ → Prop) where
  readLine h := by
    subst h
    exact ⟨rfl, rfl⟩
  writeChar char _ _ h := by
    subst h
    exact ⟨rfl, rfl⟩

namespace Machine

/-- The second machine stands `shift` positions further on in its program, on a like tape. -/
structure InStep (alike : Tape → Tape → Prop) (shift : Nat) (m n : Machine) : Prop where
  tape : alike m.tape n.tape
  pointer : n.pointer = m.pointer
  ip : n.ip = m.ip + shift
  loopStack : n.loopStack = m.loopStack.map (· + shift)
  steps : n.steps = m.steps

/-- What an instruction or a step comes to on two machines in step. -/
structure Agree {κ ρ : Type} (alike : Tape → Tape → Prop) (same : κ → κ → Prop) (shift : Nat)
    (a b : Except RuntimeError ρ × Machine × κ) : Prop where
  result : b.1 = shiftResult shift a.1
  machine : InStep alike shift a.2.1 b.2.1
  console : same a.2.2 b.2.2

variable {κ : Type} [Console κ] {alike : Tape → Tape → Prop} {same : κ → κ → Prop} {shift : Nat}
  {p q : Program} {m n : Machine} {c d : κ}

/-- Machines in step have the same cell under the pointer. -/
theorem InStep.currentCell (h : InStep alike shift m n) (htapes : Tape.Respected alike) :
    n.currentCell = m.currentCell := by
  rw [Machine.currentCell, Machine.currentCell, h.pointer, htapes.get h.tape]

/-- An instruction keeps machines in step when a loop that it skips ends at the same place. -/
theorem InStep.exec (h : InStep alike shift m n) (hconsole : same c d) (op : Opcode)
    (htapes : Tape.Respected alike) (hconsoles : Console.Respected same)
    (hskip : op = .loopStart → m.currentCell = 0 →
      q.loopEnd? (m.ip + shift) = (p.loopEnd? m.ip).map (· + shift)) :
    Agree alike same shift (exec p op m c) (exec q op n d) := by
  have hcell := h.currentCell htapes
  obtain ⟨t, pointer, ip, loopStack, steps⟩ := m
  obtain ⟨u, pointer', ip', loopStack', steps'⟩ := n
  obtain ⟨htape, hpointer, hip, hstack, hsteps⟩ := h
  dsimp only at htape hpointer hip hstack hsteps hskip
  subst hpointer hip hstack hsteps
  cases op with
  | moveRight => exact ⟨rfl, ⟨htapes.advance htape _, rfl, rfl, rfl, rfl⟩, hconsole⟩
  | moveLeft =>
    simp only [Machine.exec]
    split
    · exact ⟨rfl, ⟨htape, rfl, rfl, rfl, rfl⟩, hconsole⟩
    · exact ⟨rfl, ⟨htape, rfl, rfl, rfl, rfl⟩, hconsole⟩
  | increment => exact ⟨rfl, ⟨htapes.modify htape _ _, rfl, rfl, rfl, rfl⟩, hconsole⟩
  | decrement => exact ⟨rfl, ⟨htapes.modify htape _ _, rfl, rfl, rfl, rfl⟩, hconsole⟩
  | output =>
    simp only [Machine.exec, hcell]
    split
    · exact ⟨rfl, ⟨htape, rfl, rfl, rfl, rfl⟩, hconsole⟩
    · next char _ =>
      obtain ⟨hresult, hafter⟩ := hconsoles.writeChar char hconsole
      generalize Console.writeChar char c = written at hresult hafter ⊢
      generalize Console.writeChar char d = written' at hresult hafter ⊢
      obtain ⟨r, c'⟩ := written
      obtain ⟨r', d'⟩ := written'
      obtain rfl : r = r' := hresult
      cases r with
      | error e => exact ⟨rfl, ⟨htape, rfl, rfl, rfl, rfl⟩, hafter⟩
      | ok => exact ⟨rfl, ⟨htape, rfl, rfl, rfl, rfl⟩, hafter⟩
  | input =>
    simp only [Machine.exec]
    obtain ⟨hresult, hafter⟩ := hconsoles.readLine hconsole
    generalize Console.readLine c = read at hresult hafter ⊢
    generalize Console.readLine d = read' at hresult hafter ⊢
    obtain ⟨r, c'⟩ := read
    obtain ⟨r', d'⟩ := read'
    obtain rfl : r = r' := hresult
    cases r with
    | error e => exact ⟨rfl, ⟨htape, rfl, rfl, rfl, rfl⟩, hafter⟩
    | ok line =>
      dsimp only
      cases line.bind (·.toList.head?) with
      | none => exact ⟨rfl, ⟨htape, rfl, rfl, rfl, rfl⟩, hafter⟩
      | some char => exact ⟨rfl, ⟨htapes.modify htape _ _, rfl, rfl, rfl, rfl⟩, hafter⟩
  | loopStart =>
    simp only [exec_loopStart, hcell]
    split
    · next hzero =>
      rw [hskip rfl hzero]
      cases p.loopEnd? ip with
      | none => exact ⟨rfl, ⟨htape, rfl, rfl, rfl, rfl⟩, hconsole⟩
      | some j => exact ⟨rfl, ⟨htape, rfl, rfl, rfl, rfl⟩, hconsole⟩
    · exact ⟨rfl, ⟨htape, rfl, rfl, rfl, rfl⟩, hconsole⟩
  | loopEnd =>
    simp only [Machine.exec, hcell]
    cases loopStack with
    | nil => exact ⟨rfl, ⟨htape, rfl, rfl, rfl, rfl⟩, hconsole⟩
    | cons start outer =>
      dsimp only [List.map_cons]
      split
      · exact ⟨rfl, ⟨htape, rfl, rfl, rfl, rfl⟩, hconsole⟩
      · exact ⟨rfl, ⟨htape, rfl, rfl, rfl, rfl⟩, hconsole⟩
  | halt => exact ⟨rfl, ⟨htape, rfl, rfl, rfl, rfl⟩, hconsole⟩

/-- A step keeps machines in step when both fetch the same instruction, and a loop that it skips
ends at the same place. -/
theorem InStep.step (h : InStep alike shift m n) (hconsole : same c d)
    (htapes : Tape.Respected alike) (hconsoles : Console.Respected same)
    (hfetch : n.fetch q = shiftResult shift (m.fetch p))
    (hskip : m.fetch p = .ok .loopStart → m.currentCell = 0 →
      q.loopEnd? (m.ip + shift) = (p.loopEnd? m.ip).map (· + shift)) :
    Agree alike same shift (step p m c) (step q n d) := by
  cases hop : m.fetch p with
  | error e =>
    rw [hop] at hfetch
    have hfetch : n.fetch q = .error (e.shift shift) := hfetch
    rw [Machine.step, Machine.step, hop, hfetch]
    exact ⟨rfl, h, hconsole⟩
  | ok op =>
    rw [hop] at hfetch
    have hfetch : n.fetch q = .ok op := hfetch
    by_cases hhalt : op = .halt
    · subst hhalt
      rw [Machine.step, Machine.step, hop, hfetch]
      exact ⟨rfl, h, hconsole⟩
    · have hcount : InStep alike shift m.count n.count :=
        ⟨h.tape, h.pointer, h.ip, h.loopStack, congrArg (· + 1) h.steps⟩
      have hexec := hcount.exec hconsole op htapes hconsoles (p := p) (q := q) (by
        intro hstart hzero
        exact hskip (hstart ▸ hop) hzero)
      rw [step_of_fetch hop hhalt, step_of_fetch hfetch hhalt]
      generalize Machine.exec p op m.count c = a at hexec
      generalize Machine.exec q op n.count d = b at hexec
      obtain ⟨r, m', c'⟩ := a
      obtain ⟨r', n', d'⟩ := b
      have hmachine : InStep alike shift m' n' := hexec.machine
      obtain rfl : r' = shiftResult shift r := hexec.result
      cases r with
      | error e => exact ⟨rfl, hmachine, hexec.console⟩
      | ok =>
        have hip : n'.ip + 1 = m'.ip + 1 + shift := by
          rw [hmachine.ip]
          omega
        exact ⟨rfl, ⟨hmachine.tape, hmachine.pointer, hip, hmachine.loopStack, hmachine.steps⟩, hexec.console⟩

end Machine

end TapeMachine
