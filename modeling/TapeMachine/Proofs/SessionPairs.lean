import TapeMachine.Proofs.PointerReach
import TapeMachine.Proofs.Reset
import TapeMachine.Proofs.SideBySide

/-!
# Sessions side by side

Two sessions with the same modes, colors and unread input, whose sinks cannot be told apart, do the same
with a program as long as their machines are alike: the run, the listing of a debugged run, the state
that is shown after it and the reset come out alike. The sizing, the file that was loaded last and what
the sinks held before do not matter. The tape of a session is clean whatever lines it has been given, so
that a reset makes the machines of any two sessions alike.
-/

namespace TapeMachine.Session

variable {fuel : Nat} {files : FileTree} {line path source : String} {s s' t s₀ t₀ : Session}
  {r : Except Error Unit}

/-- Sessions that differ in their past only: in the machine, its sizing, the file that was loaded last and
the text that unlimited sinks hold. -/
structure SameSurroundings (s t : Session) : Prop where
  modes : s.modes = t.modes
  colors : s.colors = t.colors
  input : s.terminal.input = t.terminal.input
  output : s.terminal.output.Peers t.terminal.output
  diagnostics : s.diagnostics.Peers t.diagnostics

/-- Sessions with machines that are alike, after each has gained the same output and the same listing
since it was the given one. -/
structure Parallel (s₀ t₀ s t : Session) : Prop where
  modes : s.modes = t.modes
  colors : s.colors = t.colors
  machine : s.machine.Alike t.machine
  terminal : Terminal.Parallel (Sink.Parallel s₀.terminal.output t₀.terminal.output) s.terminal t.terminal
  diagnostics : Sink.Parallel s₀.diagnostics t₀.diagnostics s.diagnostics t.diagnostics

/-- Two ends of what was asked of two sessions that are the same in result, in what was written, listed and
read, in the modes and, beside storage, in the machine. -/
structure SameEffect {ρ : Type} (s t : Session) (a b : ρ × Session) : Prop where
  result : a.1 = b.1
  output : ∃ written, a.2.terminal.output.text = s.terminal.output.text ++ written ∧
    b.2.terminal.output.text = t.terminal.output.text ++ written
  listing : ∃ listed, a.2.diagnostics.text = s.diagnostics.text ++ listed ∧
    b.2.diagnostics.text = t.diagnostics.text ++ listed
  input : a.2.terminal.input = b.2.terminal.input
  machine : a.2.machine.Alike b.2.machine
  modes : a.2.modes = b.2.modes

/-- Sessions in the same surroundings start out with nothing gained. -/
theorem SameSurroundings.parallel (h : SameSurroundings s t) (hmachine : s.machine.Alike t.machine) :
    Parallel s t s t :=
  ⟨h.modes, h.colors, hmachine, ⟨h.input, h.output.parallel⟩, h.diagnostics.parallel⟩

/-- What has the same result and leaves sessions side by side has the same effect. -/
theorem Parallel.sameEffect {ρ : Type} {a b : ρ} {t' : Session} (h : Parallel s t s' t')
    (hresult : a = b) : SameEffect s t (a, s') (b, t') :=
  ⟨hresult, h.terminal.output.text, h.diagnostics.text, h.terminal.input, h.machine, h.modes⟩

namespace Parallel

variable (h : Parallel s₀ t₀ s t)

include h

/-- Answers are given alike. -/
theorem answer (pieces : List String) :
    (s.answer pieces).1 = (t.answer pieces).1 ∧
      Parallel s₀ t₀ (s.answer pieces).2 (t.answer pieces).2 := by
  obtain ⟨hresult, hprinted⟩ := h.terminal.print (Sink.respected_parallel _ _) pieces
  rw [answer_eq, answer_eq, hresult]
  exact ⟨rfl, h.modes, h.colors, h.machine, hprinted, h.diagnostics⟩

/-- The states of the machines are shown alike. -/
theorem statePieces : s.statePieces = t.statePieces := by
  simp only [Session.statePieces, indexPieces, cellPieces, tapePieces, h.colors, h.machine.pointer,
    h.machine.tape.highest, h.machine.currentCell, h.machine.tape.window]

/-- A machine that is reset on both sides stays alike. -/
theorem reset :
    Parallel s₀ t₀ { s with machine := s.machine.reset } { t with machine := t.machine.reset } :=
  ⟨h.modes, h.colors, h.machine.reset, h.terminal, h.diagnostics⟩

/-- What follows a run that succeeded ends alike. -/
theorem conclude : s.conclude.1 = t.conclude.1 ∧ Parallel s₀ t₀ s.conclude.2 t.conclude.2 := by
  have hpieces : t.feedbackPieces = s.feedbackPieces := by
    rw [feedbackPieces, feedbackPieces, h.modes, h.statePieces]
  have hanswer := h.answer s.feedbackPieces
  rw [conclude_eq, conclude_eq, hpieces]
  generalize s.answer s.feedbackPieces = answered at hanswer ⊢
  generalize t.answer s.feedbackPieces = answered' at hanswer ⊢
  obtain ⟨r, s₁⟩ := answered
  obtain ⟨r', t₁⟩ := answered'
  obtain ⟨rfl, hafter⟩ : r = r' ∧ Parallel s₀ t₀ s₁ t₁ := hanswer
  cases r with
  | error e => exact ⟨rfl, hafter⟩
  | ok _ =>
    have hkeep : t₁.modes.continuous = s₁.modes.continuous := by rw [hafter.modes]
    dsimp only
    rw [hkeep]
    split
    · exact ⟨rfl, hafter⟩
    · exact ⟨rfl, hafter.reset⟩

/-- Programs are run alike. -/
theorem launch (fuel : Nat) (p : Program) :
    Option.Rel (fun a b => a.1 = b.1 ∧ Parallel s₀ t₀ a.2 b.2) (s.launch fuel p) (t.launch fuel p) := by
  have hconsole := Terminal.indistinct_parallel
    (Sink.respected_parallel s₀.terminal.output t₀.terminal.output)
  have hlisting := Sink.respected_parallel s₀.diagnostics t₀.diagnostics
  rw [launch_eq, launch_eq, ← h.modes, ← h.colors]
  split
  · apply rel_map
      (h.machine.debug_beside h.terminal hconsole h.diagnostics hlisting s.colors true fuel p)
    intro a b hab
    exact ⟨hab.result, rfl, rfl, hab.machine, hab.console.1, hab.console.2⟩
  · apply rel_map (h.machine.run_beside h.terminal hconsole fuel p)
    intro a b hab
    exact ⟨hab.result, rfl, rfl, hab.machine, hab.console, h.diagnostics⟩

/-- Source texts are run alike. -/
theorem execute (fuel : Nat) (source : String) :
    Option.Rel (fun a b => a.1 = b.1 ∧ Parallel s₀ t₀ a.2 b.2) (s.execute fuel source)
      (t.execute fuel source) := by
  rw [Session.execute, Session.execute]
  cases compileChecked source with
  | error e => exact .some ⟨rfl, h⟩
  | ok p =>
    have hlaunch := h.launch fuel p
    dsimp only
    generalize s.launch fuel p = launched at hlaunch ⊢
    generalize t.launch fuel p = launched' at hlaunch ⊢
    cases hlaunch with
    | none => exact .none
    | @some a b hab =>
      obtain ⟨r, s₁⟩ := a
      obtain ⟨r', t₁⟩ := b
      obtain ⟨rfl, hafter⟩ : r = r' ∧ Parallel s₀ t₀ s₁ t₁ := hab
      cases r with
      | error e => exact .some ⟨rfl, hafter⟩
      | ok _ => exact .some hafter.conclude

/-- Files are remembered alike. -/
theorem remember (path : String) (r : Except Error Unit) :
    (s.remember path r).1 = (t.remember path r).1 ∧
      Parallel s₀ t₀ (s.remember path r).2 (t.remember path r).2 := by
  cases r with
  | error e => exact ⟨rfl, h⟩
  | ok _ => exact ⟨rfl, h.modes, h.colors, h.machine, h.terminal, h.diagnostics⟩

end Parallel

/-- The session at another terminal. -/
def withTerminal (s : Session) (terminal : Terminal) : Session := { s with terminal }

/-- A session in some state that lines lead to, from a new machine of any sizing and whatever files and
terminals the lines were given. -/
def Reachable (s : Session) : Prop :=
  ∃ (sizing : Sizing) (start : Session) (turns : List Turn),
    start.machine = .new sizing ∧ start.handleAll turns = some s

/-- Whatever lines were given, the highest index is the largest pointer of the states that they led
through. -/
theorem Reachable.reached (h : s.Reachable) : ∃ seen, s.machine.Reached seen := by
  obtain ⟨sizing, start, turns, hstart, hturns⟩ := h
  have hdrive := drive_turnCalls hturns
  rw [hstart] at hdrive
  exact ⟨_, Machine.Reached.drive hdrive (.new sizing)⟩

/-- Lines leave a clean tape, whether or not they fail. -/
theorem Reachable.clean (h : s.Reachable) : s.machine.tape.Clean := by
  obtain ⟨seen, hseen⟩ := h.reached
  exact hseen.clean

/-- Lines that follow other lines. -/
theorem handleAll_append {turns more : List Turn} (h : s.handleAll turns = some s') :
    s.handleAll (turns ++ more) = s'.handleAll more := by
  induction turns generalizing s with
  | nil =>
    obtain rfl := Option.some.inj h
    rfl
  | cons turn turns ih =>
    rw [handleAll] at h
    rw [List.cons_append, handleAll]
    split at h
    · contradiction
    · exact ih h

/-- More lines lead to a state that lines lead to. -/
theorem Reachable.handleAll (h : s.Reachable) {turns : List Turn} (hturns : s.handleAll turns = some s') :
    s'.Reachable := by
  obtain ⟨sizing, start, before, hstart, hbefore⟩ := h
  exact ⟨sizing, start, before ++ turns, hstart, by rw [handleAll_append hbefore, hturns]⟩

end TapeMachine.Session
