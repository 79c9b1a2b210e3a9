import TapeMachine.Proofs.Observation
import TapeMachine.Source.Compile

/-!
# What an observer is told

The calls that an observer receives follow a run without a gap: one before and one after every
instruction that is carried out, with what the machine shows at these moments. An instruction that is
refused is told of before only, and then the run ends; `halt` and what cannot be fetched are not told of.
The calls do not depend on who receives them, and a run that never ends has told the like at any time.
-/

namespace TapeMachine

/-- Give an observer one call. -/
def Observer.receive {σ : Type} (o : Observer σ) (s : σ) : Notice → σ
  | .before event => o.onStep event s
  | .after event => o.afterStep event s

/-- The recorder puts each call in front of those that it has. -/
theorem recorder_receives (calls s : List Notice) :
    calls.foldl Observer.recorder.receive s = calls.reverse ++ s := by
  induction calls generalizing s with
  | nil => rfl
  | cons call calls ih =>
    rw [List.foldl_cons, ih, List.reverse_cons, List.append_assoc]
    cases call <;> rfl

/-- Whether a call comes before an instruction. -/
def Notice.isBefore : Notice → Bool
  | before _ => true
  | after _ => false

namespace Machine

/-- What is shown before the instruction that is fetched on the `k`th machine of a path. -/
def shownBefore (path : Nat → Machine) (k : Nat) (op : Opcode) : Event where
  step := (path 0).steps + .ofNat (k + 1)
  opcode := op
  pointer := (path k).pointer
  ip := (path k).ip
  window := (path k).tape.window

/-- What is shown after it, when the next machine has been reached. -/
def shownAfter (path : Nat → Machine) (k : Nat) (op : Opcode) : Event where
  step := (path 0).steps + .ofNat (k + 1)
  opcode := op
  pointer := (path (k + 1)).pointer
  ip := (path k).ip
  window := (path (k + 1)).tape.window

/-- The calls on the way through the machines `path 0`, `path 1` and so on, when `begun` instructions
have been told of before and `ended` of them after, which are all or all but the last. Calls before and
after an instruction take turns, and there is none for `halt` and where nothing is fetched. -/
structure Told (p : Program) (path : Nat → Machine) (begun ended : Nat) (calls : List Notice) : Prop where
  begun_eq : begun = ended ∨ begun = ended + 1
  length_eq : calls.length = begun + ended
  count_eq : calls.countP Notice.isBefore = begun
  before : ∀ k < begun, ∃ op, (path k).fetch p = .ok op ∧ op ≠ .halt ∧
    calls[2 * k]? = some (.before (shownBefore path k op))
  after : ∀ k < ended, ∃ op, (path k).fetch p = .ok op ∧
    calls[2 * k + 1]? = some (.after (shownAfter path k op))

namespace Told

variable {p : Program} {path : Nat → Machine} {n begun ended : Nat} {calls : List Notice} {op : Opcode}

/-- At first there are no calls. -/
theorem nil (p : Program) (path : Nat → Machine) : Told p path 0 0 [] where
  begun_eq := .inl rfl
  length_eq := rfl
  count_eq := rfl
  before k hk := absurd hk (Nat.not_lt_zero k)
  after k hk := absurd hk (Nat.not_lt_zero k)

/-- Later calls leave those before an instruction where they are. -/
theorem before_append (h : Told p path begun ended calls) (later : List Notice) {k : Nat} (hk : k < begun) :
    ∃ op, (path k).fetch p = .ok op ∧ op ≠ .halt ∧
      (calls ++ later)[2 * k]? = some (.before (shownBefore path k op)) := by
  obtain ⟨op, hfetch, hop, hcall⟩ := h.before k hk
  have hindex : 2 * k < calls.length := (List.getElem?_eq_some_iff.mp hcall).1
  exact ⟨op, hfetch, hop, by rw [List.getElem?_append_left hindex, hcall]⟩

/-- Later calls leave those after an instruction where they are. -/
theorem after_append (h : Told p path begun ended calls) (later : List Notice) {k : Nat} (hk : k < ended) :
    ∃ op, (path k).fetch p = .ok op ∧
      (calls ++ later)[2 * k + 1]? = some (.after (shownAfter path k op)) := by
  obtain ⟨op, hfetch, hcall⟩ := h.after k hk
  have hindex : 2 * k + 1 < calls.length := (List.getElem?_eq_some_iff.mp hcall).1
  exact ⟨op, hfetch, by rw [List.getElem?_append_left hindex, hcall]⟩

/-- When all instructions have ended, the next one may begin. -/
theorem begin (h : Told p path n n calls) (hfetch : (path n).fetch p = .ok op) (hop : op ≠ .halt) :
    Told p path (n + 1) n (calls ++ [.before (shownBefore path n op)]) where
  begun_eq := .inr rfl
  length_eq := by
    rw [List.length_append, h.length_eq, List.length_singleton]
    omega
  count_eq := by
    rw [List.countP_append, h.count_eq]
    rfl
  before k hk := by
    rcases Nat.lt_succ_iff_lt_or_eq.mp hk with hk | rfl
    · exact h.before_append _ hk
    · refine ⟨op, hfetch, hop, ?_⟩
      rw [Nat.two_mul, ← h.length_eq, List.getElem?_concat_length]
  after _ hk := h.after_append _ hk

/-- An instruction that has begun may end. -/
theorem finish (h : Told p path (n + 1) n calls) (hfetch : (path n).fetch p = .ok op) :
    Told p path (n + 1) (n + 1) (calls ++ [.after (shownAfter path n op)]) where
  begun_eq := .inl rfl
  length_eq := by
    rw [List.length_append, h.length_eq, List.length_singleton]
    omega
  count_eq := by
    rw [List.countP_append, h.count_eq]
    rfl
  before _ hk := h.before_append _ hk
  after k hk := by
    rcases Nat.lt_succ_iff_lt_or_eq.mp hk with hk | rfl
    · exact h.after_append _ hk
    · refine ⟨op, hfetch, ?_⟩
      rw [show 2 * k + 1 = calls.length by rw [h.length_eq]; omega, List.getElem?_concat_length]

/-- What is shown after an instruction is shown again before the next one. -/
theorem joined (h : Told p path begun ended calls) {k : Nat} {e f : Event}
    (he : calls[2 * k + 1]? = some (.after e)) (hf : calls[2 * k + 2]? = some (.before f)) :
    f.pointer = e.pointer ∧ f.window = e.window := by
  obtain ⟨hlast, -⟩ := List.getElem?_eq_some_iff.mp hf
  have hlength := h.length_eq
  have hbegun := h.begun_eq
  obtain ⟨op, -, hafter⟩ := h.after k (by omega)
  obtain ⟨op', -, -, hbefore⟩ := h.before (k + 1) (by omega)
  obtain rfl : shownAfter path k op = e := by simpa [hafter] using he
  obtain rfl : shownBefore path (k + 1) op' = f := by
    simpa [show 2 * k + 2 = 2 * (k + 1) by omega, hbefore] using hf
  exact ⟨rfl, rfl⟩

end Told

variable {κ σ : Type} [Console κ] {p : Program} {m m' : Machine} {c c' : κ} {op : Opcode}

/-- An instruction leaves the counter alone. -/
theorem steps_of_exec (p : Program) (op : Opcode) (m : Machine) (c : κ) :
    (exec p op m c).2.1.steps = m.steps := by
  cases op with
  | moveRight => rfl
  | moveLeft =>
    simp only [exec]
    split <;> rfl
  | increment => rfl
  | decrement => rfl
  | output =>
    simp only [exec]
    split
    · rfl
    · split <;> rfl
  | input =>
    simp only [exec]
    split
    · rfl
    · split <;> rfl
  | loopStart =>
    rw [exec_loopStart]
    split
    · split <;> rfl
    · rfl
  | loopEnd =>
    simp only [exec]
    split
    · rfl
    · split <;> rfl
  | halt => rfl

/-- A step that goes on counts one instruction, which is told of before and after. -/
theorem observe_of_running (h : step p m c = (.ok .running, m', c')) :
    m'.steps = m.steps + 1 ∧ ∃ op, m.fetch p = .ok op ∧ op ≠ .halt ∧
      ∀ {σ : Type} (o : Observer σ) (s : σ), observe o p m c s =
        o.afterStep ⟨m.steps + 1, op, m'.pointer, m.ip, m'.tape.window⟩
          (o.onStep ⟨m.steps + 1, op, m.pointer, m.ip, m.tape.window⟩ s) := by
  obtain ⟨op, m₁, hfetch, hop, hexec, rfl⟩ := step_eq_running_iff.mp h
  have hsteps : m₁.steps = m.steps + 1 := by
    have hexec_steps := steps_of_exec p op m.count c
    rwa [hexec] at hexec_steps
  refine ⟨hsteps, op, hfetch, hop, fun o s => ?_⟩
  rw [observe_of_fetch hfetch hop, hexec]
  dsimp only [event]
  rw [hsteps]
  rfl

/-- A step that stops tells of an instruction that it has fetched and that is refused, before it, and of
nothing else; and it counts this one only. -/
theorem observe_of_stops {u : Machine × κ} {r : Except RuntimeError Unit} (h : Stops (stepWith p) (m, c) r u) :
    (u.1.steps = m.steps ∧ (∀ op, m.fetch p = .ok op → op = .halt) ∧
      ∀ {σ : Type} (o : Observer σ) (s : σ), observe o p m c s = s) ∨
    u.1.steps = m.steps + 1 ∧ ∃ op e, m.fetch p = .ok op ∧ op ≠ .halt ∧
      (exec p op m.count c).1 = .error e ∧
      ∀ {σ : Type} (o : Observer σ) (s : σ), observe o p m c s =
        o.onStep ⟨m.steps + 1, op, m.pointer, m.ip, m.tape.window⟩ s := by
  cases h with
  | halted hstep =>
    obtain ⟨hfetch, hmachine, -⟩ := step_eq_halted_iff.mp hstep
    refine .inl ⟨by rw [hmachine], fun op hop => ?_, fun o s => by rw [observe, hfetch]⟩
    exact (Except.ok.inj (hfetch.symm.trans hop)).symm
  | failed hstep =>
    rcases step_eq_error_iff.mp hstep with ⟨hfetch, hmachine, -⟩ | ⟨op, hfetch, hop, hexec⟩
    · refine .inl ⟨by rw [hmachine], fun op hop => ?_, fun o s => by rw [observe, hfetch]⟩
      exact absurd (hfetch.symm.trans hop) (by simp)
    · obtain ⟨-, hmachine⟩ := refused_of_exec hexec
      refine .inr ⟨by rw [hmachine]; rfl, op, _, hfetch, hop, by rw [hexec], fun o s => ?_⟩
      rw [observe_of_fetch hfetch hop, hexec]
      rfl

/-- One more instruction is counted, modulo 2^64. -/
theorem counter_succ (start : UInt64) (n : Nat) : start + .ofNat n + 1 = start + .ofNat (n + 1) := by
  rw [UInt64.ofNat_add, UInt64.add_assoc]
  rfl

/-- The machine after so many steps. -/
def machineAfter (p : Program) (t : Machine × κ) (n : Nat) : Machine := (stateAfter (stepWith p) t n).1

/-- While steps go on they count instructions, and an observer has been told of all of them. -/
theorem told_of_goesOn {t : Machine × κ} {n : Nat} (h : GoesOn (stepWith p) t n) :
    (machineAfter p t n).steps = t.1.steps + .ofNat n ∧
      ∃ calls, Told p (machineAfter p t) n n calls ∧
        ∀ {σ : Type} (o : Observer σ) (s : σ), stateAfter (stepObservedWith o p) (t.1, t.2, s) n =
          (machineAfter p t n, (stateAfter (stepWith p) t n).2, calls.foldl o.receive s) := by
  induction n with
  | zero => exact ⟨(UInt64.add_zero _).symm, [], .nil p _, fun o s => rfl⟩
  | succ n ih =>
    obtain ⟨hcount, calls, htold, hcalls⟩ := ih fun k hk => h k (Nat.lt_succ_of_lt hk)
    have hstep : step p (machineAfter p t n) (stateAfter (stepWith p) t n).2 =
        (.ok .running, machineAfter p t (n + 1), (stateAfter (stepWith p) t (n + 1)).2) :=
      Prod.ext (h n (Nat.lt_succ_self n)) (stateAfter_succ (stepWith p) t n).symm
    obtain ⟨hsteps, op, hfetch, hop, hobserve⟩ := observe_of_running hstep
    have hcounter : (machineAfter p t n).steps + 1 = t.1.steps + .ofNat (n + 1) := by
      rw [hcount, counter_succ]
    refine ⟨hsteps.trans hcounter, _, (htold.begin hfetch hop).finish hfetch, fun o s => ?_⟩
    rw [stateAfter_succ, hcalls, stepObservedWith, stepObserved_eq, hstep, hobserve, hcounter,
      List.foldl_append, List.foldl_append]
    rfl

/-- An observed step stops where the step does, with what the observer makes of it. -/
theorem stops_observed {t u : Machine × κ} {r : Except RuntimeError Unit} (h : Stops (stepWith p) t r u)
    (o : Observer σ) (s : σ) :
    Stops (stepObservedWith o p) (t.1, t.2, s) r (u.1, u.2, observe o p t.1 t.2 s) := by
  have hobserved := stepObserved_eq o p t.1 t.2 s
  cases h with
  | halted hstep =>
    rw [show step p t.1 t.2 = _ from hstep] at hobserved
    exact .halted hobserved
  | failed hstep =>
    rw [show step p t.1 t.2 = _ from hstep] at hobserved
    exact .failed hobserved

/-- How the calls of a run and the run end: all instructions that began have ended, unless the last one
was refused, and the counter has counted those that began. -/
structure Closes (p : Program) (t : Machine × κ) (begun ended : Nat) (m' : Machine) : Prop where
  steps : m'.steps = t.1.steps + .ofNat begun
  refused : ended < begun ↔ ∃ op e, (machineAfter p t ended).fetch p = .ok op ∧ op ≠ .halt ∧
    (exec p op (machineAfter p t ended).count (stateAfter (stepWith p) t ended).2).1 = .error e

/-- When steps have come to an end, an observer has been told of all of them. -/
theorem told_of_iterate {t u : Machine × κ} {fuel : Nat} {r : Except RuntimeError Unit}
    (h : iterate (stepWith p) fuel t = some (r, u)) :
    ∃ begun ended calls, Told p (machineAfter p t) begun ended calls ∧
      Stops (stepWith p) (stateAfter (stepWith p) t ended) r u ∧ Closes p t begun ended u.1 ∧
      ∀ {σ : Type} (o : Observer σ) (s : σ), iterate (stepObservedWith o p) fuel (t.1, t.2, s) =
        some (r, u.1, u.2, calls.foldl o.receive s) := by
  obtain ⟨n, hn, hgoes, hstop⟩ := iterate_eq_some_iff_goesOn.mp h
  obtain ⟨hcount, calls, htold, hcalls⟩ := told_of_goesOn hgoes
  have hend {σ : Type} (o : Observer σ) (s : σ) : iterate (stepObservedWith o p) fuel (t.1, t.2, s) =
      some (r, u.1, u.2, observe o p (machineAfter p t n) (stateAfter (stepWith p) t n).2
        (calls.foldl o.receive s)) := by
    refine iterate_eq_some_iff_goesOn.mpr ⟨n, hn, ?_, ?_⟩
    · exact (goesOn_image_iff (f := fun t : Machine × κ × σ => (t.1, t.2.1)) (t := (t.1, t.2, s))
        (stepWith_eq_stepObserved o p)).mp hgoes
    · rw [hcalls]
      exact stops_observed hstop o _
  have hlast : Stops (stepWith p) (machineAfter p t n, (stateAfter (stepWith p) t n).2) r u := hstop
  rcases observe_of_stops hlast with ⟨hsteps, hhalt, hobserve⟩ | ⟨hsteps, op, e, hfetch, hop, hexec, hobserve⟩
  · refine ⟨n, n, calls, htold, hstop, ⟨hsteps.trans hcount, ?_⟩, fun o s => by rw [hend, hobserve]⟩
    refine ⟨fun hlt => absurd hlt (Nat.lt_irrefl n), fun hrefused => ?_⟩
    obtain ⟨op, e, hfetch, hop, -⟩ := hrefused
    exact absurd (hhalt op hfetch) hop
  · have hcounter : (machineAfter p t n).steps + 1 = t.1.steps + .ofNat (n + 1) := by
      rw [hcount, counter_succ]
    refine ⟨n + 1, n, _, htold.begin hfetch hop, hstop, ⟨hsteps.trans hcounter, ?_⟩, fun o s => ?_⟩
    · exact ⟨fun _ => ⟨op, e, hfetch, hop, hexec⟩, fun _ => Nat.lt_succ_self n⟩
    · rw [hend, hobserve, hcounter, List.foldl_append]
      rfl

/-- When a run has returned, an observer has been told of all its instructions. -/
theorem told_of_run {fuel : Nat} {r : Except RuntimeError Unit} (h : run fuel p m c = some (r, m', c')) :
    ∃ begun ended calls, Told p (machineAfter p (m.rewind, c)) begun ended calls ∧
      Closes p (m.rewind, c) begun ended m' ∧
      (p.hasHeader = true → ∃ stopped c₁,
        Stops (stepWith p) (stateAfter (stepWith p) (m.rewind, c) ended) stopped (m', c₁)) ∧
      ∀ {σ : Type} (o : Observer σ) (s : σ), runObserved o fuel p m c s =
        some (r, m', c', calls.foldl o.receive s) := by
  by_cases hp : p.hasHeader = true
  · rw [run_of_hasHeader hp] at h
    obtain ⟨⟨stopped, m₁, c₁⟩, hiterate, heq⟩ := Option.map_eq_some_iff.mp h
    obtain ⟨rfl, rfl, rfl⟩ : _ = r ∧ m₁ = m' ∧ _ = c' := by simpa only [Prod.mk.injEq] using heq
    obtain ⟨begun, ended, calls, htold, hstop, hcloses, hobserved⟩ := told_of_iterate hiterate
    refine ⟨begun, ended, calls, htold, hcloses, fun _ => ⟨stopped, c₁, hstop⟩, fun o s => ?_⟩
    rw [runObserved_of_hasHeader hp, hobserved, Option.map_some]
  · rw [run, if_neg hp] at h
    obtain ⟨rfl, rfl, rfl⟩ : .error .missingHeader = r ∧ m = m' ∧ c = c' := by
      simpa only [Option.some.injEq, Prod.mk.injEq] using h
    refine ⟨0, 0, [], .nil p _, ⟨(UInt64.add_zero _).symm, ?_⟩, fun hheader => absurd hheader hp,
      fun o s => by rw [runObserved, if_neg hp, List.foldl_nil]⟩
    refine ⟨fun hlt => absurd hlt (Nat.lt_irrefl 0), fun hrefused => ?_⟩
    obtain ⟨op, e, hfetch, -⟩ := hrefused
    exact absurd (fetch_eq_ok_iff.mp hfetch).1 hp

/-- An observer does not change a run. What it is told does not depend on the observer, and follows the
instructions one by one: before each of them with the number, the position, the pointer and the window
of the machine that the steps so far have led to, and after it with the pointer and the window of the
next. This holds while the run goes on, and of all of the run when it has returned; then the last
instruction lacks its end exactly if it was refused, and the counter has counted what was told of. -/
theorem observer_told_faithfully (p : Program) (m : Machine) (c : κ) :
    (∀ {σ : Type} (o : Observer σ) (s : σ) (fuel : Nat),
      (runObserved o fuel p m c s).map (fun result => (result.1, result.2.1, result.2.2.1)) =
        run fuel p m c) ∧
    (∀ n, GoesOn (stepWith p) (m.rewind, c) n →
      ∃ calls, Told p (machineAfter p (m.rewind, c)) n n calls ∧
        ∀ {σ : Type} (o : Observer σ) (s : σ), stateAfter (stepObservedWith o p) (m.rewind, c, s) n =
          (machineAfter p (m.rewind, c) n, (stateAfter (stepWith p) (m.rewind, c) n).2,
            calls.foldl o.receive s)) ∧
    (∀ fuel r m' c', run fuel p m c = some (r, m', c') →
      ∃ begun ended calls, Told p (machineAfter p (m.rewind, c)) begun ended calls ∧
        Closes p (m.rewind, c) begun ended m' ∧
        (p.hasHeader = true → ∃ stopped c₁,
          Stops (stepWith p) (stateAfter (stepWith p) (m.rewind, c) ended) stopped (m', c₁)) ∧
        ∀ {σ : Type} (o : Observer σ) (s : σ), runObserved o fuel p m c s =
          some (r, m', c', calls.foldl o.receive s)) ∧
    ∀ begun ended calls, Told p (machineAfter p (m.rewind, c)) begun ended calls →
      ∀ k e f, calls[2 * k + 1]? = some (.after e) → calls[2 * k + 2]? = some (.before f) →
        f.pointer = e.pointer ∧ f.window = e.window :=
  ⟨fun o s fuel => (run_eq_runObserved o fuel p m c s).symm, fun _ h => (told_of_goesOn h).2,
    fun _ _ _ _ h => told_of_run h, fun _ _ _ h _ _ _ he hf => h.joined he hf⟩

/-- A loop that is passed over, an addition and a move to the left of the first cell, behind seven
instructions that were counted before: the move is not told of after. -/
theorem observer_told_faithfully_refused :
    let calls : List Notice :=
      [.before ⟨8, .loopStart, 0, 16, #[0]⟩, .after ⟨8, .loopStart, 0, 16, #[0]⟩,
        .before ⟨9, .increment, 0, 19, #[0]⟩, .after ⟨9, .increment, 0, 19, #[1]⟩,
        .before ⟨10, .moveLeft, 0, 20, #[1]⟩]
    let path := machineAfter (compile "[-]+<") (rewind ⟨⟨#[0], 1, 0⟩, 0, 40, [20], 7⟩, ({} : Terminal))
    (∃ early, Told (compile "[-]+<") path 2 2 early) ∧
    Told (compile "[-]+<") path 3 2 calls ∧
    runObserved .recorder 3 (compile "[-]+<") ⟨⟨#[0], 1, 0⟩, 0, 40, [20], 7⟩ ({} : Terminal) [] =
      some (.error (.pointerUnderflow 20), ⟨⟨#[1], 1, 0⟩, 0, 20, [], 10⟩, {}, calls.reverse) := by
  intro calls path
  have hends : (run 3 (compile "[-]+<") ⟨⟨#[0], 1, 0⟩, 0, 40, [20], 7⟩ ({} : Terminal)).map
      (fun x => (x.1, x.2.1, x.2.2.input, x.2.2.output)) =
        some (.error (.pointerUnderflow 20), ⟨⟨#[1], 1, 0⟩, 0, 20, [], 10⟩, [], {}) := by
    decide +kernel
  obtain ⟨⟨_, _, ⟨_, _⟩⟩, hrun, ⟨⟩⟩ := Option.map_eq_some_iff.mp hends
  have hgoes : GoesOn (stepWith (compile "[-]+<"))
      (rewind ⟨⟨#[0], 1, 0⟩, 0, 40, [20], 7⟩, ({} : Terminal)) 2 := by
    unfold GoesOn
    decide +kernel
  obtain ⟨-, hrunning, hreturned, -⟩ := observer_told_faithfully (compile "[-]+<")
    ⟨⟨#[0], 1, 0⟩, 0, 40, [20], 7⟩ ({} : Terminal)
  obtain ⟨early, hearly, -⟩ := hrunning 2 hgoes
  obtain ⟨begun, ended, told, htold, -, -, hcalls⟩ := hreturned 3 _ _ _ hrun
  have hrecorded : (runObserved .recorder 3 (compile "[-]+<") ⟨⟨#[0], 1, 0⟩, 0, 40, [20], 7⟩
      ({} : Terminal) []).map (fun result => result.2.2.2) = some told.reverse := by
    rw [hcalls, Option.map_some, recorder_receives, List.append_nil]
  have hlist : (runObserved .recorder 3 (compile "[-]+<") ⟨⟨#[0], 1, 0⟩, 0, 40, [20], 7⟩
      ({} : Terminal) []).map (fun result => result.2.2.2) = some calls.reverse := by
    decide +kernel
  obtain rfl : told = calls := List.reverse_inj.mp (Option.some.inj (hrecorded.symm.trans hlist))
  obtain rfl : 3 = begun := htold.count_eq
  obtain rfl : 2 = ended := Nat.add_left_cancel htold.length_eq
  exact ⟨⟨early, hearly⟩, htold, by rw [hcalls, recorder_receives, List.append_nil]⟩

end Machine

end TapeMachine
