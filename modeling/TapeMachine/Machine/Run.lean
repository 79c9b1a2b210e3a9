import TapeMachine.Machine.Step

/-!
# Runs

A run repeats steps until the machine halts or fails. Some programs never do, so a run is given fuel
and yields nothing when the fuel ends first; that it returns means that some amount of fuel is
enough. The console is flushed at the end in any case, and an error of the run wins over an error of
that flush.
-/

namespace TapeMachine

/-- Repeat a step until it halts or fails, for at most `fuel` times. -/
@[specialize]
def iterate {σ ε : Type} (step : σ → Except ε Progress × σ) :
    (fuel : Nat) → σ → Option (Except ε Unit × σ)
  | 0, _ => none
  | fuel + 1, s =>
    match step s with
    | (.error e, s) => some (.error e, s)
    | (.ok .halted, s) => some (.ok (), s)
    | (.ok .running, s) => iterate step fuel s

/-- The result of a run that ended in `run` and whose flush ended in `flushed`. -/
def settle (run : Except RuntimeError Unit) (flushed : Except IoError Unit) :
    Except RuntimeError Unit :=
  match run, flushed with
  | .error e, _ => .error e
  | .ok (), .error e => .error (.io e)
  | .ok (), .ok () => .ok ()

namespace Machine

variable {κ : Type} [Console κ]

/-- Run a program from its first instruction on the machine's tape. -/
def run (fuel : Nat) (p : Program) (m : Machine) (c : κ) :
    Option (Except RuntimeError Unit × Machine × κ) :=
  if p.hasHeader then
    match iterate (fun s : Machine × κ => step p s.1 s.2) fuel (m.rewind, c) with
    | none => none
    | some (r, m, c) =>
      let (flushed, c) := Console.flush c
      some (settle r flushed, m, c)
  else some (.error .missingHeader, m, c)

/-- Run a program on a machine of its own. -/
def runFresh (fuel : Nat) (sizing : Sizing) (p : Program) (c : κ) :
    Option (Except RuntimeError Unit × Machine × κ) :=
  run fuel p (.new sizing) c

end Machine

end TapeMachine
