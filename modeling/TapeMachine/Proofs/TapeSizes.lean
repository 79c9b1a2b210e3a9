import Mathlib.Data.List.Permutation
import TapeMachine.Proofs.InStep
import TapeMachine.Proofs.Observation
import TapeMachine.Source.Compile

/-!
# Tape sizes cannot be observed

How many cells a tape holds and by how many it grows shows in its length and nowhere else. Machines
that differ in this only take the same steps, wherever a caller has placed the pointer: results,
consoles and what an observer is told are the same on both, and the machines stay alike.
-/

namespace TapeMachine

/-- A relation between the states of an observer that its calls respect. -/
structure Observer.Respects {σ : Type} (o : Observer σ) (related : σ → σ → Prop) : Prop where
  onStep : ∀ (event : Event) {s t : σ}, related s t → related (o.onStep event s) (o.onStep event t)
  afterStep : ∀ (event : Event) {s t : σ}, related s t → related (o.afterStep event s) (o.afterStep event t)

/-- Every observer respects equality. -/
theorem Observer.respects_eq {σ : Type} (o : Observer σ) : o.Respects Eq where
  onStep event _ _ h := congrArg (o.onStep event) h
  afterStep event _ _ h := congrArg (o.afterStep event) h

namespace Machine

open Relation (ReflTransGen)

/-- Machines that differ in the storage of their tapes only. -/
structure Alike (m n : Machine) : Prop where
  tape : m.tape.Alike n.tape
  pointer : m.pointer = n.pointer
  ip : m.ip = n.ip
  loopStack : m.loopStack = n.loopStack
  steps : m.steps = n.steps

/-- Two outcomes of an operation that are the same, beside storage, in result, machine and all that
stands next to the machine. -/
structure SameOutcome {ρ τ : Type} (a b : ρ × Machine × τ) : Prop where
  result : a.1 = b.1
  machine : Alike a.2.1 b.2.1
  window : a.2.1.tape.window = b.2.1.tape.window
  surroundings : a.2.2 = b.2.2

/-- Two ends of an operation with the same result, on machines that are alike and next to consoles that
cannot be told apart. -/
structure SameEnd {ρ κ : Type} (same : κ → κ → Prop) (a b : ρ × Machine × κ) : Prop where
  result : a.1 = b.1
  machine : Alike a.2.1 b.2.1
  console : same a.2.2 b.2.2

/-- Next to the same console the same end is the same outcome. -/
theorem SameEnd.sameOutcome {ρ κ : Type} {a b : ρ × Machine × κ} (h : SameEnd Eq a b) : SameOutcome a b :=
  ⟨h.result, h.machine, h.machine.tape.window, h.console⟩

variable {κ σ : Type} [Console κ] {p : Program} {m n : Machine} {c d : κ} {o : Observer σ} {s t : σ}
  {same : κ → κ → Prop} {related : σ → σ → Prop}

namespace Alike

/-- New machines are alike. -/
theorem new (a b : Sizing) : Alike (.new a) (.new b) := ⟨.new a b, rfl, rfl, rfl, rfl⟩

/-- Rewinding keeps machines alike. -/
theorem rewind (h : Alike m n) : Alike m.rewind n.rewind :=
  ⟨h.tape, h.pointer, rfl, rfl, h.steps⟩

/-- Resetting keeps machines alike. -/
theorem reset (h : Alike m n) : Alike m.reset n.reset :=
  ⟨h.tape.reset, rfl, rfl, rfl, rfl⟩

/-- Counting an instruction keeps machines alike. -/
theorem count (h : Alike m n) : Alike m.count n.count :=
  ⟨h.tape, h.pointer, h.ip, h.loopStack, congrArg (· + 1) h.steps⟩

/-- Machines that are alike are in step, at the same place. -/
theorem inStep (h : Alike m n) : InStep Tape.Alike 0 m n :=
  ⟨h.tape, h.pointer.symm, h.ip.symm, by simp [h.loopStack], h.steps.symm⟩

/-- Machines in step at the same place are alike. -/
theorem of_inStep (h : InStep Tape.Alike 0 m n) : Alike m n :=
  ⟨h.tape, h.pointer.symm, h.ip.symm, by simp [h.loopStack], h.steps.symm⟩

omit [Console κ] in
/-- What agrees without a shift has the same end. -/
theorem sameEnd_of_agree {ρ : Type} {a b : Except RuntimeError ρ × Machine × κ}
    (h : Agree Tape.Alike same 0 a b) : SameEnd same a b :=
  ⟨by rw [h.result, shiftResult_zero], of_inStep h.machine, h.console⟩

/-- Machines that are alike fetch the same. -/
theorem fetch (h : Alike m n) : n.fetch p = m.fetch p := by
  unfold Machine.fetch
  rw [h.ip]

/-- An instruction has the same end on machines that are alike. -/
theorem exec_beside (h : Alike m n) (hconsole : same c d) (hsame : Console.Respected same) (p : Program)
    (op : Opcode) : SameEnd same (exec p op m c) (exec p op n d) :=
  sameEnd_of_agree (h.inStep.exec (p := p) (q := p) hconsole op Tape.respected_alike hsame (by simp))

/-- A step has the same end on machines that are alike. -/
theorem step_beside (h : Alike m n) (hconsole : same c d) (hsame : Console.Respected same) (p : Program) :
    SameEnd same (step p m c) (step p n d) :=
  sameEnd_of_agree (h.inStep.step (p := p) (q := p) hconsole Tape.respected_alike hsame
    (by simp [h.fetch]) (by simp))

/-- A step ends alike on machines that are alike. -/
theorem step (h : Alike m n) (p : Program) (c : κ) : SameOutcome (step p m c) (step p n c) :=
  (h.step_beside rfl Console.respected_eq p).sameOutcome

/-- Machines that are alike show the same event. -/
theorem event (h : Alike m n) (op : Opcode) (ip : Nat) : m.event op ip = n.event op ip := by
  simp only [Machine.event, h.steps, h.pointer, h.tape.window]

/-- What an observer makes of a step on machines that are alike stays related. -/
theorem observe_beside (h : Alike m n) (hconsole : same c d) (hsame : Console.Respected same)
    (hrelated : related s t) (ho : o.Respects related) (p : Program) :
    related (observe o p m c s) (observe o p n d t) := by
  cases hop : m.fetch p with
  | error e =>
    rw [Machine.observe, Machine.observe, h.fetch, hop]
    exact hrelated
  | ok op =>
    have hop' : n.fetch p = .ok op := by rw [h.fetch, hop]
    by_cases hhalt : op = .halt
    · subst hhalt
      rw [Machine.observe, Machine.observe, hop, hop']
      exact hrelated
    · have hexec := h.count.exec_beside hconsole hsame p op
      rw [observe_of_fetch hop hhalt, observe_of_fetch hop' hhalt, h.count.event, h.ip]
      generalize Machine.exec p op m.count c = a at hexec
      generalize Machine.exec p op n.count d = b at hexec
      obtain ⟨r, m', c'⟩ := a
      obtain ⟨r', n', d'⟩ := b
      have hmachine : Alike m' n' := hexec.machine
      obtain rfl : r = r' := hexec.result
      cases r with
      | error e => exact ho.onStep _ hrelated
      | ok _ =>
        dsimp only
        rw [hmachine.event]
        exact ho.afterStep _ (ho.onStep _ hrelated)

/-- An observer makes the same of a step on machines that are alike. -/
theorem observe (h : Alike m n) (o : Observer σ) (p : Program) (c : κ) (s : σ) :
    observe o p m c s = observe o p n c s :=
  h.observe_beside rfl Console.respected_eq rfl o.respects_eq p

/-- An observed step ends alike on machines that are alike. -/
theorem stepObserved (h : Alike m n) (o : Observer σ) (p : Program) (c : κ) (s : σ) :
    SameOutcome (stepObserved o p m c s) (stepObserved o p n c s) := by
  have hstep := h.step p c
  rw [stepObserved_eq, stepObserved_eq, h.observe]
  exact ⟨hstep.result, hstep.machine, hstep.window, by rw [hstep.surroundings]⟩

/-- Any number of observed steps on one of two machines that are alike can be taken on the other. -/
theorem steps_observed (h : Alike m n) {t : Machine × κ × σ}
    (hsteps : ReflTransGen (Continues (stepObservedWith o p)) (m, c, s) t) :
    ∃ n', ReflTransGen (Continues (stepObservedWith o p)) (n, c, s) (n', t.2) ∧ Alike t.1 n' := by
  induction hsteps with
  | refl => exact ⟨n, .refl, h⟩
  | @tail t u _ hstep ih =>
    obtain ⟨n', hreach, hn'⟩ := ih
    have hnext := hn'.stepObserved o p t.2.1 t.2.2
    rw [show Machine.stepObserved o p t.1 t.2.1 t.2.2 = (.ok .running, u) from hstep] at hnext
    refine ⟨(Machine.stepObserved o p n' t.2.1 t.2.2).2.1, hreach.tail ?_, hnext.machine⟩
    exact Prod.ext hnext.result.symm (Prod.ext rfl hnext.surroundings.symm)

/-- An observed run ends alike on machines that are alike. -/
theorem runObserved (h : Alike m n) (fuel : Nat) (o : Observer σ) (p : Program) (c : κ) (s : σ) :
    Option.Rel SameOutcome (runObserved o fuel p m c s) (runObserved o fuel p n c s) := by
  by_cases hp : p.hasHeader = true
  · have hstep (a b : Machine × κ × σ) (hab : Alike a.1 b.1 ∧ a.2 = b.2) :
        (stepObservedWith o p a).1 = (stepObservedWith o p b).1 ∧
          Alike (stepObservedWith o p a).2.1 (stepObservedWith o p b).2.1 ∧
            (stepObservedWith o p a).2.2 = (stepObservedWith o p b).2.2 := by
      have hstep := hab.1.stepObserved o p a.2.1 a.2.2
      obtain ⟨b₁, b₂⟩ := b
      obtain rfl : a.2 = b₂ := hab.2
      exact ⟨hstep.result, hstep.machine, hstep.surroundings⟩
    have hlock := iterate_lockstep hstep fuel (s := (m.rewind, c, s)) (t := (n.rewind, c, s))
      ⟨h.rewind, rfl⟩
    rw [runObserved_of_hasHeader hp, runObserved_of_hasHeader hp]
    apply rel_map hlock
    intro a b hab
    obtain ⟨hresult, hmachine, hrest⟩ := hab
    exact ⟨by rw [hresult, hrest], hmachine, hmachine.tape.window, by rw [hrest]⟩
  · rw [Machine.runObserved, Machine.runObserved, if_neg hp, if_neg hp]
    exact .some ⟨rfl, h, h.tape.window, rfl⟩

/-- A run ends alike on machines that are alike. -/
theorem run (h : Alike m n) (fuel : Nat) (p : Program) (c : κ) :
    Option.Rel SameOutcome (run fuel p m c) (run fuel p n c) := by
  rw [run_eq_runObserved .silent fuel p m c (), run_eq_runObserved .silent fuel p n c ()]
  apply rel_map (h.runObserved fuel .silent p c ())
  intro a b hab
  exact ⟨hab.result, hab.machine, hab.window, congrArg Prod.fst hab.surroundings⟩

end Alike

/-- New machines of all sizings are alike, and whatever program runs on machines that are alike, on
whatever console and with whatever observer, every step and every run is the same on both.

Allocation is taken to succeed, which is to say that there is room for `pointer + 2` cells wherever the
pointer stands, and that their number is below `UInt64.size`. -/
theorem sizes_unobservable :
    (∀ a b : Sizing, Alike (new a) (new b)) ∧
      ∀ m n : Machine, Alike m n → ∀ (p : Program) (c : κ) (o : Observer σ) (s : σ),
        SameOutcome (step p m c) (step p n c) ∧
          SameOutcome (stepObserved o p m c s) (stepObserved o p n c s) ∧
            (∀ t, ReflTransGen (Continues (stepObservedWith o p)) (m, c, s) t →
              ∃ n', ReflTransGen (Continues (stepObservedWith o p)) (n, c, s) (n', t.2) ∧
                Alike t.1 n' ∧ t.1.tape.window = n'.tape.window) ∧
              ∀ fuel, Option.Rel SameOutcome (run fuel p m c) (run fuel p n c) ∧
                Option.Rel SameOutcome (runObserved o fuel p m c s) (runObserved o fuel p n c s) := by
  refine ⟨Alike.new, fun m n h p c o s => ⟨h.step p c, h.stepObserved o p c s, ?_, ?_⟩⟩
  · intro t hsteps
    obtain ⟨n', hreach, hn'⟩ := h.steps_observed hsteps
    exact ⟨n', hreach, hn', hn'.tape.window⟩
  · intro fuel
    exact ⟨h.run fuel p c, h.runObserved fuel o p c s⟩

/-- A pointer placed past the end of tapes of one cell and of two, which grow to different lengths. -/
theorem sizes_unobservable_far :
    Alike { new ⟨0, 0⟩ with pointer := 2 } { new ⟨2, 5⟩ with pointer := 2 } ∧
      run 3 (compile ">+") { new ⟨0, 0⟩ with pointer := 2 } ({} : Terminal) =
          some (.ok (), ⟨⟨#[0, 0, 0, 1], 1, 3⟩, 3, 18, [], 2⟩, {}) ∧
        run 3 (compile ">+") { new ⟨2, 5⟩ with pointer := 2 } ({} : Terminal) =
            some (.ok (), ⟨⟨#[0, 0, 0, 1, 0, 0, 0], 5, 3⟩, 3, 18, [], 2⟩, {}) ∧
          Option.Rel SameOutcome (run 3 (compile ">+") { new ⟨0, 0⟩ with pointer := 2 } ({} : Terminal))
            (run 3 (compile ">+") { new ⟨2, 5⟩ with pointer := 2 } {}) := by
  have hnew := Alike.new ⟨0, 0⟩ ⟨2, 5⟩
  have halike : Alike { new ⟨0, 0⟩ with pointer := 2 } { new ⟨2, 5⟩ with pointer := 2 } :=
    ⟨hnew.tape, rfl, rfl, rfl, rfl⟩
  have hsame := sizes_unobservable.2 _ _ halike (compile ">+") ({} : Terminal) .silent ()
  exact ⟨halike, by cbv, by cbv, (hsame.2.2.2 3).1⟩

end Machine

end TapeMachine
