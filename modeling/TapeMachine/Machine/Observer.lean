import TapeMachine.Machine.Run

/-!
# Observed runs

An observer is told of every instruction that is carried out, before and after. It has a state of
its own and no influence on the machine. `halt` and bytes that cannot be fetched are not reported,
and an instruction that fails is reported only before.
-/

namespace TapeMachine

/-- What is seen of a machine around one instruction. -/
structure Event where
  /-- The number of the instruction, counted from one. -/
  step : UInt64
  opcode : Opcode
  pointer : Nat
  /-- The position of the instruction. -/
  ip : Nat
  /-- The cells up to the highest index reached. -/
  window : Array Int64
deriving DecidableEq

/-- The value of the cell under the pointer, zero outside the window. -/
def Event.cell (e : Event) : Int64 := e.window.getD e.pointer 0

/-- What is done before and after each instruction. -/
structure Observer (σ : Type) where
  onStep : Event → σ → σ
  afterStep : Event → σ → σ

/-- A call that an observer receives. -/
inductive Notice where
  | before (event : Event)
  | after (event : Event)
deriving DecidableEq

/-- The observer that keeps every call, the latest first. -/
def Observer.recorder : Observer (List Notice) where
  onStep event notices := .before event :: notices
  afterStep event notices := .after event :: notices

/-- The observer that keeps the glyphs of the instructions, the latest first. -/
def Observer.glyphs : Observer (List Char) where
  onStep event glyphs := event.opcode.glyph :: glyphs
  afterStep _ glyphs := glyphs

/-- The observer that does nothing. -/
def Observer.silent : Observer Unit where
  onStep _ _ := ()
  afterStep _ _ := ()

namespace Machine

variable {κ σ : Type} [Console κ]

/-- What an observer sees of the machine while the instruction at `ip` is carried out. -/
def event (m : Machine) (opcode : Opcode) (ip : Nat) : Event :=
  { step := m.steps, opcode, pointer := m.pointer, ip, window := m.tape.window }

/-- Fetch and carry out one instruction, telling an observer. -/
def stepObserved (o : Observer σ) (p : Program) (m : Machine) (c : κ) (s : σ) :
    Except RuntimeError Progress × Machine × κ × σ :=
  match m.fetch p with
  | .error e => (.error e, m, c, s)
  | .ok .halt => (.ok .halted, m, c, s)
  | .ok op =>
    let ip := m.ip
    let m := m.count
    let s := o.onStep (m.event op ip) s
    match exec p op m c with
    | (.error e, m, c) => (.error e, m, c, s)
    | (.ok (), m, c) =>
      let s := o.afterStep (m.event op ip) s
      (.ok .running, m.next, c, s)

/-- Run a program from its first instruction, telling an observer of every step. -/
def runObserved (o : Observer σ) (fuel : Nat) (p : Program) (m : Machine) (c : κ) (s : σ) :
    Option (Except RuntimeError Unit × Machine × κ × σ) :=
  if p.hasHeader then
    match iterate (fun t : Machine × κ × σ => stepObserved o p t.1 t.2.1 t.2.2) fuel (m.rewind, c, s) with
    | none => none
    | some (r, m, c, s) =>
      let (flushed, c) := Console.flush c
      some (settle r flushed, m, c, s)
  else some (.error .missingHeader, m, c, s)

end Machine

end TapeMachine
