import TapeMachine.Listing

/-!
# The debugger

The debugger runs a program as the machine does, lists every step, and closes with the final state.
With pauses it first waits for a line before every instruction. Pauses read from the same console as
the program, and once its input is used up the rest of the program runs without them.
-/

namespace TapeMachine

/-- The state of a debugged run. -/
structure Debugger (κ ω : Type) where
  /-- Whether to wait before the next instruction. -/
  pausing : Bool
  machine : Machine
  console : κ
  /-- Where the listing goes. -/
  listing : ω

namespace Debugger

variable {κ ω : Type} [Console κ] [Writer ω]

/-- Whether the machine stands on an instruction that a pause announces. -/
def announces (p : Program) (m : Machine) : Bool :=
  match m.fetch p with
  | .error _ => false
  | .ok op => op ≠ .halt

/-- Write a prompt and read one line; pauses end when there is no line left. -/
def pause (colors : Bool) (d : Debugger κ ω) : Except IoError Unit × Debugger κ ω :=
  match Writer.writeAll (Listing.prompt colors d.machine) d.listing with
  | (.error e, listing) => (.error e, { d with listing })
  | (.ok (), listing) =>
    match Writer.flush listing with
    | (.error e, listing) => (.error e, { d with listing })
    | (.ok (), listing) =>
      match Console.readLine d.console with
      | (.error e, console) => (.error e, { d with console, listing })
      | (.ok line, console) => (.ok (), { d with pausing := line.isSome, console, listing })

/-- Carry out one instruction with its listing. -/
def advance (colors : Bool) (p : Program) (d : Debugger κ ω) :
    Except RuntimeError Progress × Debugger κ ω :=
  let (r, machine, console, listing) :=
    Machine.stepObserved (Listing.printer colors) p d.machine d.console d.listing
  (r, { pausing := d.pausing, machine, console, listing })

/-- Wait if a pause is due, then carry out one instruction. -/
def step (colors : Bool) (p : Program) (d : Debugger κ ω) :
    Except RuntimeError Progress × Debugger κ ω :=
  if d.pausing && announces p d.machine then
    match d.pause colors with
    | (.error e, d) => (.error (.io e), d)
    | (.ok (), d) => d.advance colors p
  else d.advance colors p

end Debugger

/-- Run a program from its first instruction under the debugger, with or without pauses. -/
def Machine.debug {κ ω : Type} [Console κ] [Writer ω] (colors pausing : Bool) (fuel : Nat) (p : Program)
    (m : Machine) (c : κ) (out : ω) : Option (Except RuntimeError Unit × Machine × κ × ω) :=
  if p.hasHeader then
    match iterate (Debugger.step colors p) fuel (⟨pausing, m.rewind, c, out⟩ : Debugger κ ω) with
    | none => none
    | some (r, d) =>
      let (flushed, c) := Console.flush d.console
      some (settle r flushed, d.machine, c, Listing.summary colors d.machine d.listing)
  else some (.error .missingHeader, m, c, out)

end TapeMachine
