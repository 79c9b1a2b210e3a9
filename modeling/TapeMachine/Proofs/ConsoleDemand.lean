import TapeMachine.Debugger
import TapeMachine.Proofs.Observation

/-!
# What a step asks of its console

A step asks its console for at most one thing, to take a character or to give a line, and what becomes
of the machine depends on the answer only. So whatever these requests preserve, steps preserve, and
with them runs and debugged runs. A terminal over an unlimited sink takes every character and stays
over an unlimited sink.
-/

namespace TapeMachine

/-- A property of consoles that every request preserves, also one that fails. -/
structure Console.Preserves {κ : Type} [Console κ] (inv : κ → Prop) : Prop where
  readLine : ∀ {c : κ}, inv c → inv (readLine c).2
  writeChar : ∀ (char : Char) {c : κ}, inv c → inv (writeChar char c).2
  flush : ∀ {c : κ}, inv c → inv (flush c).2

namespace Machine

/-- What a step asks of its console, whatever console that is. -/
inductive Demand (p : Program) (m : Machine) : Prop where
  | nothing (r : Except RuntimeError Progress) (m' : Machine)
      (h : ∀ {κ : Type} [Console κ] (c : κ), step p m c = (r, m', c))
  | char (char : Char) (reply : Except IoError Unit → Except RuntimeError Progress × Machine)
      (h : ∀ {κ : Type} [Console κ] (c : κ), step p m c =
        ((reply (Console.writeChar char c).1).1, (reply (Console.writeChar char c).1).2,
          (Console.writeChar char c).2))
  | line (reply : Except IoError (Option String) → Except RuntimeError Progress × Machine)
      (h : ∀ {κ : Type} [Console κ] (c : κ), step p m c =
        ((reply (Console.readLine c).1).1, (reply (Console.readLine c).1).2, (Console.readLine c).2))

/-- An instruction that neither writes nor reads ends in the same way next to every console. -/
theorem exec_of_silent (p : Program) {op : Opcode} (houtput : op ≠ .output) (hinput : op ≠ .input)
    (m : Machine) :
    ∃ r m', ∀ {κ : Type} [Console κ] (c : κ), exec p op m c = (r, m', c) := by
  cases op with
  | moveRight => exact ⟨_, _, fun _ => rfl⟩
  | moveLeft =>
    cases hpointer : m.pointer with
    | zero =>
      simp only [exec, hpointer]
      exact ⟨_, _, fun _ => rfl⟩
    | succ pointer =>
      simp only [exec, hpointer]
      exact ⟨_, _, fun _ => rfl⟩
  | increment => exact ⟨_, _, fun _ => rfl⟩
  | decrement => exact ⟨_, _, fun _ => rfl⟩
  | output => contradiction
  | input => contradiction
  | loopStart =>
    by_cases hcell : m.currentCell = 0
    · cases hend : p.loopEnd? m.ip with
      | none =>
        simp only [exec_loopStart, hcell, hend, ↓reduceIte]
        exact ⟨_, _, fun _ => rfl⟩
      | some ip =>
        simp only [exec_loopStart, hcell, hend, ↓reduceIte]
        exact ⟨_, _, fun _ => rfl⟩
    · simp only [exec, hcell, ↓reduceIte]
      exact ⟨_, _, fun _ => rfl⟩
  | loopEnd =>
    cases hopen : m.loopStack with
    | nil =>
      simp only [exec, hopen]
      exact ⟨_, _, fun _ => rfl⟩
    | cons start outer =>
      by_cases hcell : m.currentCell = 0
      · simp only [exec, hopen, hcell, ↓reduceIte]
        exact ⟨_, _, fun _ => rfl⟩
      · simp only [exec, hopen, hcell, ↓reduceIte]
        exact ⟨_, _, fun _ => rfl⟩
  | halt => exact ⟨_, _, fun _ => rfl⟩

/-- What becomes of a machine that wrote a character. -/
def afterWrite (m : Machine) : Except IoError Unit → Except RuntimeError Progress × Machine
  | .error e => (.error (.io e), m)
  | .ok () => (.ok .running, m.next)

/-- What becomes of a machine that read a line. -/
def afterRead (m : Machine) : Except IoError (Option String) → Except RuntimeError Progress × Machine
  | .error e => (.error (.io e), m)
  | .ok line =>
    match line.bind (·.toList.head?) with
    | none => (.ok .running, m.next)
    | some char => (.ok .running, { m with tape := m.tape.set m.pointer (cellOfChar char) }.next)

/-- A step on `input` reads a line, and what becomes of the machine depends on that. -/
theorem step_of_input {p : Program} {m : Machine} (hfetch : m.fetch p = .ok .input) {κ : Type} [Console κ]
    (c : κ) :
    step p m c = ((afterRead m.count (Console.readLine c).1).1,
      (afterRead m.count (Console.readLine c).1).2, (Console.readLine c).2) := by
  rw [step_of_fetch hfetch (by decide)]
  simp only [exec]
  rcases Console.readLine c with ⟨_ | line, c'⟩
  · rfl
  · simp only [afterRead]
    cases line.bind (·.toList.head?) <;> rfl

/-- A step asks for a character to be written, for a line, or for nothing. -/
theorem demand_of_step (p : Program) (m : Machine) : Demand p m := by
  cases hfetch : m.fetch p with
  | error e =>
    refine .nothing (.error e) m fun c => ?_
    rw [step, hfetch]
  | ok op =>
    have hsilent (houtput : op ≠ .output) (hinput : op ≠ .input) (hhalt : op ≠ .halt) : Demand p m := by
      obtain ⟨r, m', hexec⟩ := exec_of_silent p houtput hinput m.count
      cases r with
      | error e => exact .nothing (.error e) m' fun c => by rw [step_of_fetch hfetch hhalt, hexec]
      | ok _ => exact .nothing (.ok .running) m'.next fun c => by rw [step_of_fetch hfetch hhalt, hexec]
    cases op with
    | output =>
      cases hchar : charOfCell? m.count.currentCell with
      | none =>
        refine .nothing (.error (.invalidCodepoint m.count.currentCell)) m.count fun c => ?_
        rw [step_of_fetch hfetch (by decide)]
        simp only [exec, hchar]
      | some char =>
        refine .char char (afterWrite m.count) fun c => ?_
        rw [step_of_fetch hfetch (by decide)]
        simp only [exec, hchar]
        rcases Console.writeChar char c with ⟨_ | _, c'⟩ <;> rfl
    | input => exact .line (afterRead m.count) (step_of_input hfetch)
    | halt =>
      refine .nothing (.ok .halted) m fun c => ?_
      rw [step, hfetch]
    | _ => exact hsilent (by decide) (by decide) (by decide)

variable {κ ω : Type} [Console κ] [Writer ω] {inv : κ → Prop} {p : Program} {m : Machine} {c : κ}

/-- What every request preserves, a step preserves. -/
theorem console_of_step (hinv : Console.Preserves inv) (p : Program) (m : Machine) (h : inv c) :
    inv (step p m c).2.2 := by
  cases demand_of_step p m with
  | nothing r m' hstep => rwa [hstep]
  | char char reply hstep =>
    rw [hstep]
    exact hinv.writeChar char h
  | line reply hstep =>
    rw [hstep]
    exact hinv.readLine h

/-- What every request preserves, a run preserves. -/
theorem console_of_run (hinv : Console.Preserves inv) {fuel : Nat}
    {x : Except RuntimeError Unit × Machine × κ} (hrun : run fuel p m c = some x) (h : inv c) :
    inv x.2.2 := by
  by_cases hp : p.hasHeader = true
  · rw [run_of_hasHeader hp] at hrun
    obtain ⟨y, hiterate, rfl⟩ := Option.map_eq_some_iff.mp hrun
    have hstep (s : Machine × κ) (hs : inv s.2) : inv (stepWith p s).2.2 := console_of_step hinv p s.1 hs
    have hlast := invariant_of_iterate hstep hiterate h
    exact hinv.flush hlast
  · rw [run, if_neg hp] at hrun
    obtain rfl := Option.some.inj hrun
    exact h

end Machine

namespace Debugger

variable {κ ω : Type} [Console κ] [Writer ω] {inv : κ → Prop}

/-- A pause reads one line at most and leaves the machine alone. -/
theorem pause_frame (colors : Bool) (d : Debugger κ ω) :
    (d.pause colors).2.machine = d.machine ∧
      ((d.pause colors).2.console = d.console ∨
        (d.pause colors).2.console = (Console.readLine d.console).2) := by
  unfold pause
  split
  · exact ⟨rfl, .inl rfl⟩
  · split
    · exact ⟨rfl, .inl rfl⟩
    · split
      · next hread => exact ⟨rfl, .inr (by rw [hread])⟩
      · next hread => exact ⟨rfl, .inr (by rw [hread])⟩

/-- Carrying out an instruction with its listing is a step and what the listing makes of it. -/
theorem advance_eq (colors : Bool) (p : Program) (d : Debugger κ ω) :
    d.advance colors p =
      ((Machine.step p d.machine d.console).1,
        { pausing := d.pausing
          machine := (Machine.step p d.machine d.console).2.1
          console := (Machine.step p d.machine d.console).2.2
          listing := Machine.observe (Listing.printer colors) p d.machine d.console d.listing }) := by
  rw [advance, Machine.stepObserved_eq]

/-- A debugged step leaves the machine alone or carries out a step. -/
theorem machine_of_step (colors : Bool) (p : Program) (d : Debugger κ ω) :
    (d.step colors p).2.machine = d.machine ∨
      ∃ c : κ, (d.step colors p).2.machine = (Machine.step p d.machine c).2.1 := by
  have hpause := (pause_frame colors d).1
  unfold step
  split
  · split
    · next hfail =>
      rw [hfail] at hpause
      exact .inl hpause
    · next d₁ hwaited =>
      rw [hwaited] at hpause
      rw [advance_eq, ← hpause]
      exact .inr ⟨d₁.console, rfl⟩
  · rw [advance_eq]
    exact .inr ⟨d.console, rfl⟩

/-- What every request preserves, a debugged step preserves. -/
theorem console_of_step (hinv : Console.Preserves inv) (colors : Bool) (p : Program)
    (d : Debugger κ ω) (h : inv d.console) : inv (d.step colors p).2.console := by
  have hpause : inv (d.pause colors).2.console := by
    rcases (pause_frame colors d).2 with heq | heq
    · rwa [heq]
    · rw [heq]
      exact hinv.readLine h
  have hadvance (d : Debugger κ ω) (h : inv d.console) : inv (d.advance colors p).2.console := by
    rw [advance_eq]
    exact Machine.console_of_step hinv p d.machine h
  unfold step
  split
  · split
    · next hfail => rwa [hfail] at hpause
    · next hwaited =>
      rw [hwaited] at hpause
      exact hadvance _ hpause
  · exact hadvance d h

end Debugger

namespace Machine

variable {κ ω : Type} [Console κ] [Writer ω] {inv : κ → Prop} {p : Program} {m : Machine} {c : κ}

/-- With the header in place, a debugged run is debugged steps from the rewound machine, one flush
and the final state. -/
theorem debug_of_hasHeader (hp : p.hasHeader = true) (colors pausing : Bool) (fuel : Nat)
    (m : Machine) (c : κ) (out : ω) :
    m.debug colors pausing fuel p c out =
      (iterate (Debugger.step colors p) fuel ⟨pausing, m.rewind, c, out⟩).map fun result =>
        (settle result.1 (Console.flush result.2.console).1, result.2.machine,
          (Console.flush result.2.console).2,
          Listing.summary colors result.2.machine result.2.listing) := by
  rw [debug, if_pos hp]
  cases iterate (Debugger.step colors p) fuel (⟨pausing, m.rewind, c, out⟩ : Debugger κ ω) <;> rfl

/-- What every request preserves, a debugged run preserves. -/
theorem console_of_debug (hinv : Console.Preserves inv) {colors pausing : Bool} {fuel : Nat} {out : ω}
    {x : Except RuntimeError Unit × Machine × κ × ω}
    (hdebug : m.debug colors pausing fuel p c out = some x) (h : inv c) : inv x.2.2.1 := by
  by_cases hp : p.hasHeader = true
  · rw [debug_of_hasHeader hp] at hdebug
    obtain ⟨y, hiterate, rfl⟩ := Option.map_eq_some_iff.mp hdebug
    have hstep (d : Debugger κ ω) (hd : inv d.console) : inv (d.step colors p).2.console :=
      Debugger.console_of_step hinv colors p d hd
    have hlast := invariant_of_iterate hstep hiterate h
    exact hinv.flush hlast
  · rw [debug, if_neg hp] at hdebug
    obtain rfl := Option.some.inj hdebug
    exact h

end Machine

/-- A property of writers with which nothing is refused and which everything preserves. -/
structure Writer.Accepting {ω : Type} [Writer ω] (accepting : ω → Prop) : Prop where
  write : ∀ (piece : String) {out : ω}, accepting out →
    (write piece out).1 = .ok () ∧ accepting (write piece out).2
  flush : ∀ {out : ω}, accepting out → (flush out).1 = .ok () ∧ accepting (flush out).2

/-- A writer that refuses nothing takes all pieces. -/
theorem Writer.Accepting.writeAll {ω : Type} [Writer ω] {accepting : ω → Prop}
    (h : Writer.Accepting accepting) (pieces : List String) {out : ω} (hout : accepting out) :
    (writeAll pieces out).1 = .ok () ∧ accepting (writeAll pieces out).2 := by
  induction pieces generalizing out with
  | nil => exact ⟨rfl, hout⟩
  | cons piece pieces ih =>
    have hpiece := h.write piece hout
    rw [Writer.writeAll]
    generalize Writer.write piece out = written at hpiece ⊢
    obtain ⟨r, out⟩ := written
    obtain ⟨rfl, hnext⟩ : r = .ok () ∧ accepting out := hpiece
    exact ih hnext

/-- An unlimited sink refuses nothing. -/
theorem Sink.accepting_unlimited : Writer.Accepting Sink.Unlimited where
  write piece out h := by
    rw [show Writer.write piece out = _ from write_of_unlimited h piece]
    exact ⟨rfl, h⟩
  flush {out} h := by
    rw [show Writer.flush out = _ from flush_of_unlimited h]
    exact ⟨rfl, h⟩

/-- A flush leaves the text of a sink. -/
theorem Sink.text_flush (s : Sink) : s.flush.2.text = s.text := by
  rw [flush]
  split <;> rfl

/-- A piece that is refused leaves a sink as it is, and any other is appended to its text. -/
theorem Sink.text_write (s : Sink) (piece : String) :
    (s.write piece).2.text = s.text ++ (if (s.write piece).1.isOk then piece else "") := by
  rw [write]
  split
  · next hempty => simp [String.isEmpty_iff.mp hempty]
  · split
    · rfl
    · split
      · rfl
      · simp [Except.isOk, Except.toBool]

namespace Terminal

variable {t : Terminal}

/-- A terminal over an unlimited sink flushes without a change. -/
theorem flush_of_unlimited (h : t.output.Unlimited) : t.flush = (.ok (), t) := by
  rw [flush, Sink.flush_of_unlimited h]

/-- A terminal over an unlimited sink takes every character. -/
theorem writeChar_of_unlimited (h : t.output.Unlimited) (c : Char) :
    t.writeChar c = (.ok (), { t with output.text := t.output.text ++ c.toString }) := by
  rw [writeChar, Sink.write_of_unlimited h]

/-- A terminal over an unlimited sink reads a line from its input and changes nothing else. -/
theorem readLine_of_unlimited (h : t.output.Unlimited) :
    t.readLine =
      match t.input with
      | [] => (.ok none, t)
      | b :: bs =>
        match Text.ofBytes? (cutLine (b :: bs)).1 with
        | none => (.error .invalidUtf8, { t with input := (cutLine (b :: bs)).2 })
        | some text => (.ok (some text), { t with input := (cutLine (b :: bs)).2 }) := by
  obtain ⟨input, output⟩ := t
  cases input with
  | nil => simp [readLine, Sink.flush_of_unlimited h]
  | cons b bs =>
    cases hbytes : Text.ofBytes? (cutLine (b :: bs)).1 <;>
      simp [readLine, Sink.flush_of_unlimited h, hbytes]

/-- Everything that is asked of it leaves a terminal over an unlimited sink. -/
theorem preserves_unlimited : Console.Preserves fun t : Terminal => t.output.Unlimited where
  readLine {t} h := by
    change t.readLine.2.output.Unlimited
    rw [readLine_of_unlimited h]
    split
    · exact h
    · split <;> exact h
  writeChar char t h := by
    change (t.writeChar char).2.output.Unlimited
    rw [writeChar_of_unlimited h]
    exact h
  flush {t} h := by
    change t.flush.2.output.Unlimited
    rw [flush_of_unlimited h]
    exact h

end Terminal

end TapeMachine
