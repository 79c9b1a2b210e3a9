import TapeMachine.Proofs.ConsoleDemand
import TapeMachine.Source.Compile

/-!
# Steps and runs that fail

A step that fails leaves the machine as it found it, but for the counter once an instruction was
fetched. Unless the console failed it was not asked for anything, and the step fails again in the same
way on every console. So a run that fails leaves the state that its last good step has reached, and
with it all that was written until then: a terminal never loses what it has taken.
-/

namespace TapeMachine

open Relation (ReflTransGen)

/-- Whether an error says that no instruction could be fetched. -/
def RuntimeError.ofFetch : RuntimeError → Bool
  | .missingHeader => true
  | .corrupted _ .missingHalt => true
  | .unknownOpcode _ _ => true
  | _ => false

/-- Whether an error is one of the console. -/
def RuntimeError.isIo : RuntimeError → Bool
  | .io _ => true
  | _ => false

namespace Machine

variable {κ σ : Type} [Console κ] {p : Program} {m m' : Machine} {c c' : κ} {op : Opcode}
  {e : RuntimeError}

/-- How a step that fails leaves the machine and the console. -/
structure FailsInPlace (p : Program) (m : Machine) (c : κ) (e : RuntimeError) (m' : Machine) (c' : κ) :
    Prop where
  tape : m'.tape = m.tape
  pointer : m'.pointer = m.pointer
  ip : m'.ip = m.ip
  loopStack : m'.loopStack = m.loopStack
  fetch : e.ofFetch = true ↔ m.fetch p = .error e
  steps : m'.steps = if e.ofFetch then m.steps else m.steps + 1
  console : e.isIo = false → c' = c
  again : e.isIo = false → ∀ d : κ, (step p m' d).1 = .error e ∧
    ∀ {σ : Type} (o : Observer σ) (s : σ), (stepObserved o p m' d s).1 = .error e

/-- What cannot be fetched is no matter of the console. -/
theorem ofFetch_of_fetch (h : m.fetch p = .error e) : e.ofFetch = true ∧ e.isIo = false := by
  rcases fetch_eq_error h with ⟨-, rfl⟩ | ⟨-, rfl⟩ | ⟨byte, -, -, rfl⟩ <;> exact ⟨rfl, rfl⟩

/-- An instruction that is refused has been fetched. -/
theorem Refused.ofFetch (h : Refused p m op e) : e.ofFetch = false := by
  cases h <;> rfl

/-- The counter does not matter for what is refused. -/
theorem Refused.count (h : Refused p m op e) : Refused p m.count op e := by
  cases h with
  | underflow hpointer => exact .underflow hpointer
  | noCharacter hcell => exact .noCharacter hcell
  | console hop e => exact .console hop e
  | unclosedLoop hcell hend => exact .unclosedLoop hcell hend
  | strayLoopEnd hopen => exact .strayLoopEnd hopen

/-- What is refused on other grounds than the console is refused before the console is asked. -/
theorem exec_of_refused (h : Refused p m op e) (he : e.isIo = false) (c : κ) :
    exec p op m c = (.error e, m, c) := by
  cases h with
  | underflow hpointer => simp only [exec, hpointer]
  | noCharacter hcell => simp only [exec, hcell]
  | console => contradiction
  | unclosedLoop hcell hend => simp only [exec_loopStart, hcell, hend, ↓reduceIte]
  | strayLoopEnd hopen => simp only [exec, hopen]

/-- An observer does not change how a step fails. -/
theorem stepObserved_error (h : (step p m c).1 = .error e) (o : Observer σ) (s : σ) :
    (stepObserved o p m c s).1 = .error e := by
  rw [stepObserved_eq, h]

/-- A step that fails leaves the machine and the console in place. -/
theorem failsInPlace_of_step (h : step p m c = (.error e, m', c')) : FailsInPlace p m c e m' c' := by
  rcases step_eq_error_iff.mp h with ⟨hfetch, rfl, rfl⟩ | ⟨op, hfetch, hop, hexec⟩
  · obtain ⟨hof, hio⟩ := ofFetch_of_fetch hfetch
    have hagain (d : κ) : (step p m' d).1 = .error e := by rw [step, hfetch]
    exact ⟨rfl, rfl, rfl, rfl, ⟨fun _ => hfetch, fun _ => hof⟩, by rw [hof, if_pos rfl], fun _ => rfl,
      fun _ d => ⟨hagain d, stepObserved_error (hagain d)⟩⟩
  · obtain ⟨hrefused, rfl⟩ := refused_of_exec hexec
    have hof := hrefused.ofFetch
    have hagain (hio : e.isIo = false) (d : κ) : (step p m.count d).1 = .error e := by
      have hfetch' : m.count.fetch p = .ok op := hfetch
      rw [step_of_fetch hfetch' hop, exec_of_refused hrefused.count hio]
    refine ⟨rfl, rfl, rfl, rfl, ?_, by rw [hof]; rfl, fun hio => ?_,
      fun hio d => ⟨hagain hio d, stepObserved_error (hagain hio d)⟩⟩
    · rw [hof, hfetch]
      simp
    · rw [exec_of_refused hrefused hio c] at hexec
      obtain ⟨-, -, rfl⟩ : _ ∧ _ ∧ c = c' := by simpa only [Prod.mk.injEq] using hexec
      rfl

/-- A run that fails and the state that its last good step has reached, from where the next step or
the closing flush fails. -/
structure BreaksOff (p : Program) (m : Machine) (c : κ) (e : RuntimeError) (m' : Machine) (c' : κ)
    (last : Machine × κ) : Prop where
  reached : ReflTransGen (Continues (stepWith p)) (m.rewind, c) last
  stops : ∃ stopped c₁, Stops (stepWith p) last stopped (m', c₁) ∧
    settle stopped (Console.flush c₁).1 = .error e ∧ c' = (Console.flush c₁).2
  tape : m'.tape = last.1.tape
  pointer : m'.pointer = last.1.pointer
  ip : m'.ip = last.1.ip
  loopStack : m'.loopStack = last.1.loopStack

/-- A run that fails breaks off at some state, unless it is refused for its header. -/
theorem breaksOff_of_run {fuel : Nat} (h : run fuel p m c = some (.error e, m', c')) :
    (p.hasHeader = false ∧ e = .missingHeader ∧ m' = m ∧ c' = c) ∨
      p.hasHeader = true ∧ ∃ last, BreaksOff p m c e m' c' last := by
  cases hp : p.hasHeader with
  | false =>
    rw [run, hp, if_neg Bool.false_ne_true] at h
    simp only [Option.some.injEq, Prod.mk.injEq, Except.error.injEq] at h
    exact .inl ⟨rfl, h.1.symm, h.2.1.symm, h.2.2.symm⟩
  | true =>
    obtain ⟨stopped, c₁, hiterate, hsettle, rfl⟩ := (run_eq_some_iff hp).mp ⟨fuel, h⟩
    obtain ⟨last, hreached, hstops⟩ := iterate_eq_some_iff.mp hiterate
    refine .inr ⟨rfl, last, ?_⟩
    have hends : ∃ stopped c₂, Stops (stepWith p) last stopped (m', c₂) ∧
        settle stopped (Console.flush c₂).1 = .error e ∧ (Console.flush c₁).2 = (Console.flush c₂).2 :=
      ⟨stopped, c₁, hstops, hsettle.symm, rfl⟩
    cases hstops with
    | halted hstep =>
      obtain ⟨-, rfl, -⟩ := step_eq_halted_iff.mp hstep
      exact ⟨hreached, hends, rfl, rfl, rfl, rfl⟩
    | failed hstep =>
      have hplace := failsInPlace_of_step hstep
      exact ⟨hreached, hends, hplace.tape, hplace.pointer, hplace.ip, hplace.loopStack⟩

end Machine

/-- A character that is refused leaves the text of a terminal, and any other is appended to it. -/
theorem Terminal.text_writeChar (t : Terminal) (char : Char) :
    (t.writeChar char).2.output.text =
      t.output.text ++ (if (t.writeChar char).1.isOk then char.toString else "") :=
  t.output.text_write char.toString

/-- Reading leaves the text of a terminal. -/
theorem Terminal.text_readLine (t : Terminal) : t.readLine.2.output.text = t.output.text := by
  have hflush := t.output.text_flush
  rw [readLine]
  split
  · next hfailed => rwa [hfailed] at hflush
  · next hflushed =>
    rw [hflushed] at hflush
    split
    · exact hflush
    · dsimp only
      split <;> exact hflush

namespace Machine

variable {p : Program} {m m' : Machine} {t t' : Terminal} {op : Opcode} {e : RuntimeError}

/-- A step appends to the text of a terminal. -/
theorem text_of_step (p : Program) (m : Machine) (t : Terminal) :
    ∃ more, (step p m t).2.2.output.text = t.output.text ++ more := by
  cases demand_of_step p m with
  | nothing r m' hstep =>
    rw [hstep]
    exact ⟨"", by simp⟩
  | char char reply hstep =>
    rw [hstep]
    exact ⟨_, t.text_writeChar char⟩
  | line reply hstep =>
    rw [hstep]
    exact ⟨"", by rw [String.append_empty]; exact t.text_readLine⟩

/-- An instruction that is refused writes nothing. -/
theorem text_of_exec_error (h : exec p op m t = (.error e, m', t')) :
    t'.output.text = t.output.text := by
  obtain ⟨hrefused, -⟩ := refused_of_exec h
  cases hio : e.isIo with
  | false =>
    rw [exec_of_refused hrefused hio] at h
    obtain ⟨-, -, rfl⟩ : _ ∧ _ ∧ t = t' := by simpa only [Prod.mk.injEq] using h
    rfl
  | true =>
    obtain ⟨hpointer⟩ | ⟨hcell⟩ | ⟨rfl | rfl, cause⟩ | ⟨hcell, hend⟩ | ⟨hopen⟩ := hrefused
    · contradiction
    · contradiction
    · cases hchar : charOfCell? m.currentCell with
      | none => simp [exec, hchar] at h
      | some char =>
        simp only [exec, hchar] at h
        split at h
        · next cause' t₁ hwrite =>
          obtain ⟨-, -, rfl⟩ : _ ∧ _ ∧ t₁ = t' := by simpa only [Prod.mk.injEq] using h
          have htext := t.text_writeChar char
          rw [show t.writeChar char = _ from hwrite] at htext
          simpa [Except.isOk, Except.toBool] using htext
        · simp at h
    · simp only [exec] at h
      split at h
      · next cause' t₁ hread =>
        obtain ⟨-, -, rfl⟩ : _ ∧ _ ∧ t₁ = t' := by simpa only [Prod.mk.injEq] using h
        have htext := t.text_readLine
        rwa [show t.readLine = _ from hread] at htext
      · split at h <;> simp at h
    · contradiction
    · contradiction

/-- A state from which a step stops holds all the text that is there at the end. -/
theorem text_of_stops {s u : Machine × Terminal} {r : Except RuntimeError Unit}
    (h : Stops (stepWith p) s r u) : u.2.output.text = s.2.output.text := by
  cases h with
  | halted hstep =>
    obtain ⟨-, -, heq⟩ := step_eq_halted_iff.mp hstep
    rw [heq]
  | failed hstep =>
    rcases step_eq_error_iff.mp hstep with ⟨-, -, heq⟩ | ⟨op, -, -, hexec⟩
    · rw [heq]
    · exact text_of_exec_error hexec

/-- Steps append to the text of a terminal. -/
theorem text_of_reaches {s u : Machine × Terminal} (h : ReflTransGen (Continues (stepWith p)) s u) :
    ∃ more, u.2.output.text = s.2.output.text ++ more := by
  induction h with
  | refl => exact ⟨"", by simp⟩
  | @tail v u _ hstep ih =>
    obtain ⟨more, hmore⟩ := ih
    obtain ⟨last, hlast⟩ := text_of_step p v.1 v.2
    rw [show step p v.1 v.2 = _ from hstep, hmore, String.append_assoc] at hlast
    exact ⟨_, hlast⟩

end Machine

/-- A run that breaks off leaves on its terminal what was there after its last good step, and so all
that was there in any state on its way. -/
theorem Machine.BreaksOff.text {p : Program} {m m' : Machine} {t t' : Terminal} {e : RuntimeError}
    {last : Machine × Terminal} (h : BreaksOff p m t e m' t' last) :
    t'.output.text = last.2.output.text ∧
      ∀ u, ReflTransGen (Continues (stepWith p)) (m.rewind, t) u →
        ∃ more, t'.output.text = u.2.output.text ++ more := by
  obtain ⟨stopped, t₁, hstops, -, rfl⟩ := h.stops
  have htext : t₁.flush.2.output.text = last.2.output.text :=
    (t₁.output.text_flush).trans (text_of_stops hstops)
  refine ⟨htext, fun u hu => ?_⟩
  rw [show (Console.flush t₁).2 = t₁.flush.2 from rfl, htext]
  exact text_of_reaches (reaches_of_stops hu h.reached hstops)

/-- A step that fails, observed or not, leaves everything in place but the counter, and unless the
console failed, the console as well. A run that fails leaves the machine in the state that its last
good step has reached, but for the counter, and a terminal with all that was written until then. -/
theorem Machine.failure_in_place {κ σ : Type} [Console κ] (p : Program) (m : Machine) (c : κ)
    (o : Observer σ) (s : σ) (e : RuntimeError) (m' : Machine) (c' : κ) :
    (step p m c = (.error e, m', c') ∨ (∃ s', stepObserved o p m c s = (.error e, m', c', s')) →
      FailsInPlace p m c e m' c') ∧
    (∀ fuel, run fuel p m c = some (.error e, m', c') ∨
        (∃ s', runObserved o fuel p m c s = some (.error e, m', c', s')) →
      (p.hasHeader = false ∧ e = .missingHeader ∧ m' = m ∧ c' = c) ∨
        p.hasHeader = true ∧ ∃ last, BreaksOff p m c e m' c' last) ∧
    ∀ (t t' : Terminal) (last : Machine × Terminal), BreaksOff p m t e m' t' last →
      t'.output.text = last.2.output.text ∧
        ∀ u, ReflTransGen (Continues (stepWith p)) (m.rewind, t) u →
          ∃ more, t'.output.text = u.2.output.text ++ more := by
  refine ⟨fun h => ?_, fun fuel h => ?_, fun t t' last h => h.text⟩
  · rcases h with h | ⟨s', h⟩
    · exact failsInPlace_of_step h
    · rw [stepObserved_eq] at h
      obtain ⟨hresult, hmachine, hconsole, -⟩ : _ = _ ∧ _ = m' ∧ _ = c' ∧ _ := by
        simpa only [Prod.mk.injEq] using h
      exact failsInPlace_of_step (Prod.ext hresult (Prod.ext hmachine hconsole))
  · rcases h with h | ⟨s', h⟩
    · exact breaksOff_of_run h
    · have hrun : run fuel p m c = some (.error e, m', c') := by
        rw [run_eq_runObserved o fuel p m c s, h]
        rfl
      exact breaksOff_of_run hrun

/-- A loop that cannot be skipped, met inside two open ones, leaves these open; and a run that prints
and then fails leaves what it printed. -/
theorem Machine.failure_in_place_open_loops :
    FailsInPlace (.ofBody [6, 6, 7, 0]) ⟨⟨#[0], 1, 0⟩, 0, 16, [40, 20], 7⟩ ({} : Terminal)
        (.corrupted 16 .unclosedLoop) ⟨⟨#[0], 1, 0⟩, 0, 16, [40, 20], 8⟩ {} ∧
      ∃ last, BreaksOff (compile ".<") ⟨⟨#[33], 1, 0⟩, 0, 40, [20], 7⟩ ({} : Terminal)
          (.pointerUnderflow 17) ⟨⟨#[33], 1, 0⟩, 0, 17, [], 9⟩ { output := { text := "!" } } last ∧
        last.2.output.text = "!" := by
  have hstep : step (.ofBody [6, 6, 7, 0]) ⟨⟨#[0], 1, 0⟩, 0, 16, [40, 20], 7⟩ ({} : Terminal) =
      (.error (.corrupted 16 .unclosedLoop), ⟨⟨#[0], 1, 0⟩, 0, 16, [40, 20], 8⟩, {}) := by
    cbv
  have hends : (run 3 (compile ".<") ⟨⟨#[33], 1, 0⟩, 0, 40, [20], 7⟩ ({} : Terminal)).map
      (fun x => (x.1, x.2.1, x.2.2.input, x.2.2.output)) =
        some (.error (.pointerUnderflow 17), ⟨⟨#[33], 1, 0⟩, 0, 17, [], 9⟩, [], { text := "!" }) := by
    decide +kernel
  obtain ⟨⟨_, _, ⟨_, _⟩⟩, hrun, ⟨⟩⟩ := Option.map_eq_some_iff.mp hends
  obtain ⟨hplace, -, -⟩ := failure_in_place (.ofBody [6, 6, 7, 0]) ⟨⟨#[0], 1, 0⟩, 0, 16, [40, 20], 7⟩
    ({} : Terminal) .silent () (.corrupted 16 .unclosedLoop) ⟨⟨#[0], 1, 0⟩, 0, 16, [40, 20], 8⟩ {}
  obtain ⟨-, hbreaks, htext⟩ := failure_in_place (compile ".<") ⟨⟨#[33], 1, 0⟩, 0, 40, [20], 7⟩
    ({} : Terminal) .silent () (.pointerUnderflow 17) ⟨⟨#[33], 1, 0⟩, 0, 17, [], 9⟩
    { output := { text := "!" } }
  refine ⟨hplace (.inl hstep), ?_⟩
  rcases hbreaks 3 (.inl hrun) with ⟨-, heq, -⟩ | ⟨-, last, hlast⟩
  · contradiction
  · exact ⟨last, hlast, (htext _ _ last hlast).1.symm⟩

end TapeMachine
