import TapeMachine.Proofs.TapeSizes

/-!
# A reset machine is as good as a new one

A reset zeroes the cells up to the highest index only. This is enough because nothing that a caller
can do with a machine ever leaves another value past the highest index: not a run that fails half
way, and not a write at a place that the caller chose. So a reset machine is like a new one of any
sizing, and whatever is done with it comes out as it would on the new one.
-/

namespace TapeMachine

/-- What a caller can do with a machine that stands next to a console and an observer. -/
inductive Operation (κ σ : Type) where
  | step (p : Program)
  | run (p : Program)
  | stepObserved (o : Observer σ) (p : Program)
  | runObserved (o : Observer σ) (p : Program)
  | setCell (index : Nat) (value : Int64)
  | setPointer (pointer : Nat)
  | setIp (ip : Nat)
  | setLoopStack (loopStack : List Nat)
  | setSteps (steps : UInt64)
  | rewind
  | reset
  | resetTape
  /-- Goes on with another console. -/
  | useConsole (c : κ)
  | getCell (index : Nat)
  | getWindow

/-- What an operation returns. -/
inductive Answer where
  | done
  | stepped (r : Except RuntimeError Progress)
  | ran (r : Except RuntimeError Unit)
  | cell (value : Int64)
  | window (cells : Array Int64)

namespace Machine

variable {κ σ : Type} [Console κ] {m m' n : Machine}

/-- Carry out an operation; there is no answer when a run uses up its fuel. -/
def perform (fuel : Nat) (op : Operation κ σ) (m : Machine) (c : κ) (s : σ) :
    Option (Answer × Machine × κ × σ) :=
  match op with
  | .step p =>
    let (r, m, c) := step p m c
    some (.stepped r, m, c, s)
  | .run p => (run fuel p m c).map fun (r, m, c) => (.ran r, m, c, s)
  | .stepObserved o p =>
    let (r, m, c, s) := stepObserved o p m c s
    some (.stepped r, m, c, s)
  | .runObserved o p => (runObserved o fuel p m c s).map fun (r, m, c, s) => (.ran r, m, c, s)
  | .setCell index value => some (.done, { m with tape := m.tape.set index value }, c, s)
  | .setPointer pointer => some (.done, { m with pointer }, c, s)
  | .setIp ip => some (.done, { m with ip }, c, s)
  | .setLoopStack loopStack => some (.done, { m with loopStack }, c, s)
  | .setSteps steps => some (.done, { m with steps }, c, s)
  | .rewind => some (.done, m.rewind, c, s)
  | .reset => some (.done, m.reset, c, s)
  | .resetTape => some (.done, { m with tape := m.tape.reset }, c, s)
  | .useConsole c => some (.done, m, c, s)
  | .getCell index => some (.cell (m.tape.get index), m, c, s)
  | .getWindow => some (.window m.tape.window, m, c, s)

/-- Carry out operations one after the other, whether or not they fail. -/
def performAll (fuel : Nat) :
    List (Operation κ σ) → Machine → κ → σ → Option (List Answer × Machine × κ × σ)
  | [], m, c, s => some ([], m, c, s)
  | op :: ops, m, c, s =>
    match perform fuel op m c s with
    | none => none
    | some (answer, m, c, s) => (performAll fuel ops m c s).map fun (answers, rest) => (answer :: answers, rest)

/-- An operation ends alike on machines that are alike. -/
theorem Alike.perform (h : Alike m n) (fuel : Nat) (op : Operation κ σ) (c : κ) (s : σ) :
    Option.Rel SameOutcome (perform fuel op m c s) (perform fuel op n c s) := by
  -- What the caller changes without a run is the same change on both machines.
  have hdone {a : Answer} {c' : κ} {m' n' : Machine} (h' : Alike m' n') :
      Option.Rel SameOutcome (some (a, m', c', s)) (some (a, n', c', s)) :=
    .some ⟨rfl, h', h'.tape.window, rfl⟩
  cases op with
  | step p =>
    have hstep := h.step p c
    exact .some ⟨congrArg Answer.stepped hstep.result, hstep.machine, hstep.window,
      congrArg (·, s) hstep.surroundings⟩
  | run p =>
    apply rel_map (h.run fuel p c)
    intro a b hab
    exact ⟨congrArg Answer.ran hab.result, hab.machine, hab.window, congrArg (·, s) hab.surroundings⟩
  | stepObserved o p =>
    have hstep := h.stepObserved o p c s
    exact .some ⟨congrArg Answer.stepped hstep.result, hstep.machine, hstep.window,
      hstep.surroundings⟩
  | runObserved o p =>
    apply rel_map (h.runObserved fuel o p c s)
    intro a b hab
    exact ⟨congrArg Answer.ran hab.result, hab.machine, hab.window, hab.surroundings⟩
  | setCell index value =>
    exact hdone ⟨h.tape.modify index _, h.pointer, h.ip, h.loopStack, h.steps⟩
  | setPointer pointer => exact hdone ⟨h.tape, rfl, h.ip, h.loopStack, h.steps⟩
  | setIp ip => exact hdone ⟨h.tape, h.pointer, rfl, h.loopStack, h.steps⟩
  | setLoopStack loopStack => exact hdone ⟨h.tape, h.pointer, h.ip, rfl, h.steps⟩
  | setSteps steps => exact hdone ⟨h.tape, h.pointer, h.ip, h.loopStack, rfl⟩
  | rewind => exact hdone h.rewind
  | reset => exact hdone h.reset
  | resetTape => exact hdone ⟨h.tape.reset, h.pointer, h.ip, h.loopStack, h.steps⟩
  | useConsole c => exact hdone h
  | getCell index =>
    rw [Machine.perform, Machine.perform, h.tape.cells]
    exact hdone h
  | getWindow =>
    rw [Machine.perform, Machine.perform, h.tape.window]
    exact hdone h

/-- Operations end alike on machines that are alike. -/
theorem Alike.performAll (h : Alike m n) (fuel : Nat) (ops : List (Operation κ σ)) (c : κ) (s : σ) :
    Option.Rel SameOutcome (performAll fuel ops m c s) (performAll fuel ops n c s) := by
  induction ops generalizing m n c s with
  | nil => exact .some ⟨rfl, h, h.tape.window, rfl⟩
  | cons op ops ih =>
    have hop := h.perform fuel op c s
    simp only [Machine.performAll]
    generalize Machine.perform fuel op m c s = a at hop
    generalize Machine.perform fuel op n c s = b at hop
    cases hop with
    | none => exact .none
    | @some a b hab =>
      obtain ⟨answer, m', c', s'⟩ := a
      obtain ⟨answer', n', d', s''⟩ := b
      obtain rfl : answer = answer' := hab.result
      obtain ⟨rfl, rfl⟩ := Prod.mk.inj hab.surroundings
      apply rel_map (ih hab.machine c' s')
      intro x y hxy
      exact ⟨congrArg (answer :: ·) hxy.result, hxy.machine, hxy.window, hxy.surroundings⟩

/-- A step leaves a clean tape clean, also when it fails. -/
theorem clean_of_step (h : m.tape.Clean) (p : Program) (c : κ) : (step p m c).2.1.tape.Clean :=
  (touch_of_step p m c).clean h

/-- An observed run leaves a clean tape clean, also when it fails. -/
theorem clean_of_runObserved (h : m.tape.Clean) {fuel : Nat} {o : Observer σ} {p : Program} {c : κ}
    {s : σ} {x : Except RuntimeError Unit × Machine × κ × σ}
    (hrun : runObserved o fuel p m c s = some x) : x.2.1.tape.Clean := by
  by_cases hp : p.hasHeader = true
  · have hstep (t : Machine × κ × σ) (ht : t.1.tape.Clean) :
        (stepObservedWith o p t).2.1.tape.Clean := by
      rw [stepObservedWith, stepObserved_eq]
      exact clean_of_step ht p t.2.1
    rw [runObserved_of_hasHeader hp] at hrun
    obtain ⟨y, hiterate, rfl⟩ := Option.map_eq_some_iff.mp hrun
    have hclean := invariant_of_iterate hstep hiterate h
    exact hclean
  · rw [runObserved, if_neg hp] at hrun
    obtain rfl := Option.some.inj hrun
    exact h

/-- Nothing that a caller can do leaves a value past the highest index. -/
theorem clean_of_perform (h : m.tape.Clean) {fuel : Nat} {op : Operation κ σ} {c : κ} {s : σ}
    {x : Answer × Machine × κ × σ} (hop : perform fuel op m c s = some x) : x.2.1.tape.Clean := by
  cases op with
  | step p =>
    obtain rfl := Option.some.inj hop
    exact clean_of_step h p c
  | run p =>
    obtain ⟨y, hrun, rfl⟩ := Option.map_eq_some_iff.mp hop
    rw [run_eq_runObserved .silent fuel p m c ()] at hrun
    obtain ⟨z, hobserved, rfl⟩ := Option.map_eq_some_iff.mp hrun
    exact clean_of_runObserved h hobserved
  | stepObserved o p =>
    rw [perform, stepObserved_eq] at hop
    obtain rfl := Option.some.inj hop
    exact clean_of_step h p c
  | runObserved o p =>
    obtain ⟨y, hrun, rfl⟩ := Option.map_eq_some_iff.mp hop
    exact clean_of_runObserved h hrun
  | setCell index value =>
    obtain rfl := Option.some.inj hop
    exact h.modify index _
  | reset =>
    obtain rfl := Option.some.inj hop
    exact h.reset
  | resetTape =>
    obtain rfl := Option.some.inj hop
    exact h.reset
  | _ =>
    obtain rfl := Option.some.inj hop
    exact h

/-- After any operations on a machine with a clean tape the tape is clean. -/
theorem clean_of_performAll (h : m.tape.Clean) {fuel : Nat} {ops : List (Operation κ σ)} {c : κ}
    {s : σ} {x : List Answer × Machine × κ × σ} (hops : performAll fuel ops m c s = some x) :
    x.2.1.tape.Clean := by
  induction ops generalizing m c s x with
  | nil =>
    obtain rfl := Option.some.inj hops
    exact h
  | cons op ops ih =>
    rw [performAll] at hops
    split at hops
    · contradiction
    · next answer m' c' s' hop =>
      obtain ⟨y, hrest, rfl⟩ := Option.map_eq_some_iff.mp hops
      have hnext : m'.tape.Clean := clean_of_perform h hop
      have hlast : y.2.1.tape.Clean := ih hnext hrest
      exact hlast

/-- A reset machine with a clean tape is like a new one. -/
theorem alike_reset_new (h : m.tape.Clean) (sizing : Sizing) : Alike m.reset (new sizing) := by
  refine ⟨⟨fun index => ?_, rfl, h.reset.fits, Tape.size_new_pos sizing⟩, rfl, rfl, rfl, rfl⟩
  rw [show (new sizing).tape = .new sizing from rfl, Tape.get_new]
  exact h.get_reset index

/-- Whatever was done with a machine, a reset leaves it with the cells it holds, all zero, and with
all positions and counters at their start, and from there on every operation comes out as on a new
machine of any sizing. -/
theorem reset_as_new {κ₀ σ₀ : Type} [Console κ₀] {sizing : Sizing} {fuel₀ : Nat}
    {history : List (Operation κ₀ σ₀)} {c₀ c₁ : κ₀} {s₀ s₁ : σ₀} {answers : List Answer}
    (hhistory : performAll fuel₀ history (new sizing) c₀ s₀ = some (answers, m, c₁, s₁)) :
    (∀ index, m.reset.tape.get index = 0) ∧ m.reset.tape.highest = 0 ∧ m.reset.pointer = 0 ∧
      m.reset.steps = 0 ∧ m.reset.ip = Program.entry ∧ m.reset.loopStack = [] ∧
        m.reset.tape.size = m.tape.size ∧
          ∀ (fresh : Sizing) (fuel : Nat) (ops : List (Operation κ σ)) (c : κ) (s : σ),
            Option.Rel SameOutcome (performAll fuel ops m.reset c s)
              (performAll fuel ops (new fresh) c s) := by
  have hclean : m.tape.Clean := clean_of_performAll (Tape.Clean.new sizing) hhistory
  refine ⟨hclean.get_reset, rfl, rfl, rfl, rfl, rfl, Tape.size_reset m.tape, ?_⟩
  intro fresh fuel ops c s
  exact (alike_reset_new hclean fresh).performAll fuel ops c s

/-- A run that writes where the caller put the pointer and then fails leaves nothing behind. -/
theorem reset_as_new_after_failure :
    performAll 5 [.setPointer 2, .run (compile "+<<<")] (new ⟨1, 1⟩) ({} : Terminal) () =
        some ([.done, .ran (.error (.pointerUnderflow 19))], ⟨⟨#[0, 0, 1], 1, 2⟩, 0, 19, [], 4⟩, {}, ()) ∧
      Option.Rel SameOutcome
        (performAll 5 [.run (compile ">>."), .getWindow] (reset ⟨⟨#[0, 0, 1], 1, 2⟩, 0, 19, [], 4⟩)
          ({} : Terminal) ())
        (performAll 5 [.run (compile ">>."), .getWindow] (new ⟨7, 2⟩) {} ()) := by
  have hhistory : performAll 5 [.setPointer 2, .run (compile "+<<<")] (new ⟨1, 1⟩) ({} : Terminal) () =
      some ([.done, .ran (.error (.pointerUnderflow 19))], ⟨⟨#[0, 0, 1], 1, 2⟩, 0, 19, [], 4⟩, {}, ()) := by
    cbv
  obtain ⟨-, -, -, -, -, -, -, hlater⟩ := reset_as_new (κ := Terminal) (σ := Unit) hhistory
  exact ⟨hhistory, hlater _ _ _ _ _⟩

end Machine

end TapeMachine
