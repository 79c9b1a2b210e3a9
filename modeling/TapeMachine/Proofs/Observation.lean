import TapeMachine.Machine.Observer
import TapeMachine.Proofs.Execution

/-!
# Observed runs are runs

An observer sees events and has a state of its own; the machine and the console do not depend on it.
So an observed step is the step that is not observed, beside what the observer makes of its events,
and an observed run is the run that is not observed, beside the last state of the observer.
-/

namespace TapeMachine.Machine

variable {κ σ : Type} [Console κ]

/-- One observed step on a machine together with its console and the state of the observer. -/
abbrev stepObservedWith (o : Observer σ) (p : Program) (t : Machine × κ × σ) :
    Except RuntimeError Progress × Machine × κ × σ :=
  stepObserved o p t.1 t.2.1 t.2.2

/-- What an observer makes of one step: nothing unless an instruction other than `halt` is fetched,
and no more than the event before the instruction if it fails. -/
def observe (o : Observer σ) (p : Program) (m : Machine) (c : κ) (s : σ) : σ :=
  match m.fetch p with
  | .error _ => s
  | .ok .halt => s
  | .ok op =>
    match exec p op m.count c with
    | (.error _, _, _) => o.onStep (m.count.event op m.ip) s
    | (.ok (), m', _) => o.afterStep (m'.event op m.ip) (o.onStep (m.count.event op m.ip) s)

/-- An instruction other than `halt` is reported before it is carried out, and after it has
succeeded. -/
theorem observe_of_fetch {p : Program} {m : Machine} {op : Opcode} (hfetch : m.fetch p = .ok op)
    (hop : op ≠ .halt) (o : Observer σ) (c : κ) (s : σ) :
    observe o p m c s =
      match exec p op m.count c with
      | (.error _, _, _) => o.onStep (m.count.event op m.ip) s
      | (.ok (), m', _) => o.afterStep (m'.event op m.ip) (o.onStep (m.count.event op m.ip) s) := by
  rw [observe, hfetch]
  cases op <;> first | rfl | contradiction

/-- An observed step is the step itself and what the observer makes of it. -/
theorem stepObserved_eq (o : Observer σ) (p : Program) (m : Machine) (c : κ) (s : σ) :
    stepObserved o p m c s =
      ((step p m c).1, (step p m c).2.1, (step p m c).2.2, observe o p m c s) := by
  unfold stepObserved step observe
  cases m.fetch p with
  | error e => rfl
  | ok op =>
    cases op with
    | halt => rfl
    | _ =>
      dsimp only
      generalize exec p _ m.count c = carried
      obtain ⟨r, m', c'⟩ := carried
      cases r <;> rfl

/-- With the header in place, an observed run is observed steps from the rewound machine and one
flush. -/
theorem runObserved_of_hasHeader {p : Program} (hp : p.hasHeader = true) (o : Observer σ) (fuel : Nat)
    (m : Machine) (c : κ) (s : σ) :
    runObserved o fuel p m c s =
      (iterate (stepObservedWith o p) fuel (m.rewind, c, s)).map fun result =>
        (settle result.1 (Console.flush result.2.2.1).1, result.2.1, (Console.flush result.2.2.1).2,
          result.2.2.2) := by
  rw [runObserved, if_pos hp]
  cases iterate (stepObservedWith o p) fuel (m.rewind, c, s) <;> rfl

/-- Without the state of the observer, an observed step is a step. -/
theorem stepWith_eq_stepObserved (o : Observer σ) (p : Program) (t : Machine × κ × σ) :
    stepWith p (t.1, t.2.1) =
      ((stepObservedWith o p t).1, (stepObservedWith o p t).2.1, (stepObservedWith o p t).2.2.1) := by
  rw [stepObservedWith, stepObserved_eq]

/-- A run is the observed run without the observer. -/
theorem run_eq_runObserved (o : Observer σ) (fuel : Nat) (p : Program) (m : Machine) (c : κ) (s : σ) :
    run fuel p m c = (runObserved o fuel p m c s).map fun result =>
      (result.1, result.2.1, result.2.2.1) := by
  by_cases hp : p.hasHeader = true
  · have hiterate := iterate_image (f := fun t : Machine × κ × σ => (t.1, t.2.1))
      (stepWith_eq_stepObserved o p) fuel (m.rewind, c, s)
    rw [run_of_hasHeader hp, runObserved_of_hasHeader hp, hiterate, Option.map_map, Option.map_map]
    rfl
  · rw [run, runObserved, if_neg hp, if_neg hp]
    rfl

end TapeMachine.Machine
