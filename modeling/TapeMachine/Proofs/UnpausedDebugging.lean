import TapeMachine.Proofs.ConsoleDemand
import TapeMachine.Source.Compile

/-!
# Debugging without pauses

Without pauses the debugger asks its console for nothing of its own, and its listing, which may be cut
short anywhere, decides nothing. What it does is to run the program with the listing as the observer.
So it is a plain run in all but the listing: step for step the same machine, the same requests to the
console with the same answers, and the same end.
-/

namespace TapeMachine

open Relation (ReflTransGen)

/-- Something that was asked of a console, with the answer to it. -/
inductive Request where
  | readLine (answer : Except IoError (Option String))
  | writeChar (char : Char) (answer : Except IoError Unit)
  | flush (answer : Except IoError Unit)
deriving DecidableEq

/-- A console and all that was asked of it, in order. -/
structure Logged (κ : Type) where
  console : κ
  requests : List Request := []

namespace Logged

variable {κ : Type} [Console κ]

/-- Keep a request with its answer. -/
def note {ρ : Type} (c : Logged κ) (request : ρ → Request) : ρ × κ → ρ × Logged κ
  | (answer, console) => (answer, ⟨console, c.requests ++ [request answer]⟩)

instance : Console (Logged κ) where
  readLine c := c.note .readLine (Console.readLine c.console)
  writeChar char c := c.note (.writeChar char) (Console.writeChar char c.console)
  flush c := c.note .flush (Console.flush c.console)

end Logged

namespace Machine

variable {κ : Type} [Console κ]

/-- Without what was kept, a step on a console that keeps its requests is a step. -/
theorem stepWith_eq_logged (p : Program) (t : Machine × Logged κ) :
    stepWith p (t.1, t.2.console) =
      ((stepWith p t).1, (stepWith p t).2.1, (stepWith p t).2.2.console) := by
  cases demand_of_step p t.1 with
  | nothing r m' hstep => rw [stepWith, stepWith, hstep, hstep]
  | char char reply hstep =>
    rw [stepWith, stepWith, hstep, hstep]
    rfl
  | line reply hstep =>
    rw [stepWith, stepWith, hstep, hstep]
    rfl

/-- Without what was kept, a run on a console that keeps its requests is a run. -/
theorem run_eq_logged (fuel : Nat) (p : Program) (m : Machine) (c : Logged κ) :
    run fuel p m c.console = (run fuel p m c).map fun result =>
      (result.1, result.2.1, result.2.2.console) := by
  by_cases hp : p.hasHeader = true
  · have hiterate := iterate_image (f := fun t : Machine × Logged κ => (t.1, t.2.console))
      (stepWith_eq_logged p) fuel (m.rewind, c)
    rw [run_of_hasHeader hp, run_of_hasHeader hp, hiterate, Option.map_map, Option.map_map]
    rfl
  · rw [run, run, if_neg hp, if_neg hp]
    rfl

end Machine

namespace Debugger

variable {κ ω : Type} [Console κ] [Writer ω]

/-- A debugger without pauses next to a machine, a console and a listing. -/
abbrev unpaused (t : Machine × κ × ω) : Debugger κ ω := ⟨false, t.1, t.2.1, t.2.2⟩

/-- Without pauses, a debugged step is a step that the listing observes. -/
theorem step_unpaused (colors : Bool) (p : Program) (t : Machine × κ × ω) :
    (unpaused t).step colors p =
      ((Machine.stepObservedWith (Listing.printer colors) p t).1,
        unpaused (Machine.stepObservedWith (Listing.printer colors) p t).2) :=
  rfl

/-- Without pauses, debugged steps reach what plain steps reach, with some listing. -/
theorem reaches_unpaused_iff (colors : Bool) (p : Program) (m : Machine) (c : κ) (out : ω)
    (u : Machine × κ) :
    ReflTransGen (Continues (Machine.stepWith p)) (m, c) u ↔
      ∃ listing, ReflTransGen (Continues (step colors p)) (unpaused (m, c, out))
        (unpaused (u.1, u.2, listing)) := by
  have hplain := reaches_image_iff (f := fun t : Machine × κ × ω => (t.1, t.2.1)) (t := (m, c, out))
    (s := u) (Machine.stepWith_eq_stepObserved (Listing.printer colors) p)
  have hdebug (listing : ω) := reaches_image_iff (f := unpaused) (t := (m, c, out))
    (s := unpaused (u.1, u.2, listing)) (step_unpaused colors p)
  rw [hplain]
  refine ⟨fun h => ?_, fun h => ?_⟩
  · obtain ⟨v, rfl, hv⟩ := h
    exact ⟨v.2.2, (hdebug v.2.2).mpr ⟨v, rfl, hv⟩⟩
  · obtain ⟨listing, h⟩ := h
    obtain ⟨v, heq, hv⟩ := (hdebug listing).mp h
    obtain ⟨-, hmachine, hconsole, -⟩ := Debugger.mk.inj heq
    exact ⟨v, Prod.ext hmachine hconsole, hv⟩

end Debugger

namespace Machine

variable {κ ω : Type} [Console κ] [Writer ω]

/-- Without pauses, a debugged run is a run that the listing observes, and the final state behind it. -/
theorem debug_eq_runObserved {p : Program} (hp : p.hasHeader = true) (colors : Bool) (fuel : Nat)
    (m : Machine) (c : κ) (out : ω) :
    m.debug colors false fuel p c out =
      (runObserved (Listing.printer colors) fuel p m c out).map fun result =>
        (result.1, result.2.1, result.2.2.1, Listing.summary colors result.2.1 result.2.2.2) := by
  have hiterate := iterate_image (Debugger.step_unpaused colors p) fuel (m.rewind, c, out)
  rw [debug_of_hasHeader hp, runObserved_of_hasHeader hp, hiterate, Option.map_map, Option.map_map]
  rfl

/-- Without its listing, a debugged run without pauses is a run. -/
theorem run_eq_debug (colors : Bool) (fuel : Nat) (p : Program) (m : Machine) (c : κ) (out : ω) :
    run fuel p m c = (m.debug colors false fuel p c out).map fun result =>
      (result.1, result.2.1, result.2.2.1) := by
  by_cases hp : p.hasHeader = true
  · rw [debug_eq_runObserved hp, run_eq_runObserved (Listing.printer colors) fuel p m c out,
      Option.map_map]
    rfl
  · rw [run, debug, if_neg hp, if_neg hp]
    rfl

/-- A run whose steps fail ends with their error, whatever becomes of the flush. -/
theorem run_of_failed {p : Program} (hp : p.hasHeader = true) {fuel : Nat} {m m' : Machine} {c c' : κ}
    {e : RuntimeError} (h : iterate (stepWith p) fuel (m.rewind, c) = some (.error e, m', c')) :
    run fuel p m c = some (.error e, m', (Console.flush c').2) := by
  rw [run_of_hasHeader hp, h]
  rfl

/-- Whatever the program, the machine, the console and the listing are, a debugged run without pauses is
the plain run: it returns with the same fuel, with the same result, machine and console, and it has asked
the console for the same things and had the same answers, also while it has not returned yet. An error
of the steps wins over one of the flush in both. -/
theorem debug_unpaused_as_run (colors : Bool) (p : Program) (m : Machine) (c : κ) (out : ω) :
    let logged : Logged κ := { console := c }
    (∀ fuel, (m.debug colors false fuel p c out).map (fun result => (result.1, result.2.1, result.2.2.1)) =
      run fuel p m c) ∧
    (∀ fuel, (m.debug colors false fuel p logged out).map
        (fun result => (result.1, result.2.1, result.2.2.1)) = run fuel p m logged ∧
      run fuel p m c =
        (run fuel p m logged).map fun result => (result.1, result.2.1, result.2.2.console)) ∧
    (∀ u, ReflTransGen (Continues (stepWith p)) (m.rewind, logged) u ↔
      ∃ listing, ReflTransGen (Continues (Debugger.step colors p)) ⟨false, m.rewind, logged, out⟩
        ⟨false, u.1, u.2, listing⟩) ∧
    ∀ fuel e m' c', p.hasHeader = true →
      iterate (stepWith p) fuel (m.rewind, c) = some (.error e, m', c') →
        run fuel p m c = some (.error e, m', (Console.flush c').2) ∧
          ∃ out', m.debug colors false fuel p c out = some (.error e, m', (Console.flush c').2, out') := by
  intro logged
  refine ⟨fun fuel => (run_eq_debug colors fuel p m c out).symm,
    fun fuel => ⟨(run_eq_debug colors fuel p m logged out).symm, run_eq_logged fuel p m logged⟩,
    Debugger.reaches_unpaused_iff colors p m.rewind logged out, fun fuel e m' c' hp hfailed => ?_⟩
  have hrun := run_of_failed hp hfailed
  refine ⟨hrun, ?_⟩
  rw [run_eq_debug colors fuel p m c out] at hrun
  obtain ⟨⟨r, m₁, c₁, out'⟩, hdebug, heq⟩ := Option.map_eq_some_iff.mp hrun
  obtain ⟨rfl, rfl, rfl⟩ : r = _ ∧ m₁ = _ ∧ c₁ = _ := by simpa only [Prod.mk.injEq] using heq
  exact ⟨out', hdebug⟩

/-- A move to the left of the first cell, on a terminal that refuses to flush and with a listing that
refuses every line, is what the debugged run reports, and the flush is all that the terminal was asked
for. -/
theorem debug_unpaused_as_run_broken :
    ∃ t' out', Console.flush ({ output := { flushBudget := some 0 } } : Terminal) =
        (.error .flushRefused, t') ∧
      (new ⟨1, 1⟩).debug false false 2 (compile "+<") ({ output := { flushBudget := some 0 } } : Terminal)
          ({ writeLimit := some 0 } : Sink) =
        some (.error (.pointerUnderflow 17), ⟨⟨#[1], 1, 0⟩, 0, 17, [], 2⟩, t', out') ∧
      ((new ⟨1, 1⟩).debug false false 2 (compile "+<")
          (⟨{ output := { flushBudget := some 0 } }, []⟩ : Logged Terminal)
          ({ writeLimit := some 0 } : Sink)).map (fun result => result.2.2.1.requests) =
        some [.flush (.error .flushRefused)] := by
  obtain ⟨-, hlogged, -, herror⟩ := debug_unpaused_as_run false (compile "+<") (new ⟨1, 1⟩)
    ({ output := { flushBudget := some 0 } } : Terminal) ({ writeLimit := some 0 } : Sink)
  have hheader : (compile "+<").hasHeader = true := Program.hasHeader_ofOpcodes _
  have hends : (iterate (stepWith (compile "+<")) 2
      ((new ⟨1, 1⟩).rewind, ({ output := { flushBudget := some 0 } } : Terminal))).map
        (fun x => (x.1, x.2.1, x.2.2.input, x.2.2.output)) =
          some (.error (.pointerUnderflow 17), ⟨⟨#[1], 1, 0⟩, 0, 17, [], 2⟩, [],
            { flushBudget := some 0 }) := by
    decide +kernel
  obtain ⟨⟨_, _, ⟨_, _⟩⟩, hsteps, ⟨⟩⟩ := Option.map_eq_some_iff.mp hends
  obtain ⟨-, out', hdebug⟩ := herror 2 _ _ _ hheader hsteps
  refine ⟨_, out', rfl, hdebug, ?_⟩
  have hrequests : (run 2 (compile "+<") (new ⟨1, 1⟩)
      (⟨{ output := { flushBudget := some 0 } }, []⟩ : Logged Terminal)).map
        (fun result => result.2.2.requests) = some [.flush (.error .flushRefused)] := by
    decide +kernel
  rw [← (hlogged 2).1, Option.map_map] at hrequests
  exact hrequests

end Machine

end TapeMachine
