import TapeMachine.Session.Handle
import TapeMachine.Proofs.ConsoleDemand

/-!
# What a line does to a session

What becomes of a line is said once here: it prints an answer, it is refused, it loads a file or it
runs code. Everything that happens to the session's machine is a run, a debugged run or a reset, so
what these preserve every line preserves. An answer cannot fail on a terminal over an unlimited sink.
-/

namespace TapeMachine.Session

variable {fuel : Nat} {files : FileTree} {line path : String} {s s' : Session} {r : Except Error Unit}

/-- How a program is run on a session's machine. -/
inductive Launched (fuel : Nat) (p : Program) (s : Session) :
    Except RuntimeError Unit → Session → Prop where
  | debug {result : Except RuntimeError Unit} {machine : Machine} {terminal : Terminal}
      {diagnostics : Sink}
      (hdebug : s.machine.debug s.colors true fuel p s.terminal s.diagnostics =
        some (result, machine, terminal, diagnostics)) :
      Launched fuel p s result { s with machine, terminal, diagnostics }
  | run {result : Except RuntimeError Unit} {machine : Machine} {terminal : Terminal}
      (hrun : s.machine.run fuel p s.terminal = some (result, machine, terminal)) :
      Launched fuel p s result { s with machine, terminal }

/-- How the run of a source text on a session's machine ends. -/
inductive Executed (fuel : Nat) (source : String) (s : Session) : Except Error Unit → Session → Prop where
  | unbalanced {e : Unbalanced} (hcheck : checkBalanced source = .error e) :
      Executed fuel source s (.error (.source e)) s
  | failed {e : RuntimeError} {s' : Session} (hcheck : checkBalanced source = .ok ())
      (hlaunch : s.launch fuel (compile source) = some (.error e, s')) :
      Executed fuel source s (.error (.runtime e)) s'
  | concluded {s₁ : Session} (hcheck : checkBalanced source = .ok ())
      (hlaunch : s.launch fuel (compile source) = some (.ok (), s₁)) :
      Executed fuel source s s₁.conclude.1 s₁.conclude.2

/-- How loading a file ends. -/
inductive Loaded (fuel : Nat) (files : FileTree) (path : String) (s : Session) :
    Except Error Unit → Session → Prop where
  | unknown (hkind : Path.kind path = .unknown) :
      Loaded fuel files path s (.error (.unknownFileType path)) s
  | unreadable {e : IoError} (hkind : Path.kind path = .source) (hread : files.readText path = .error e) :
      Loaded fuel files path s (.error (.io e)) s
  | source {source : String} {r : Except Error Unit} {s' : Session} (hkind : Path.kind path = .source)
      (hread : files.readText path = .ok source)
      (hexecuted : Executed fuel source { s with machine := s.machine.reset } r s') :
      Loaded fuel files path s (s'.remember path r).1 (s'.remember path r).2
  | malformed {e : FormatError} (hkind : Path.kind path = .stored)
      (hread : files.readProgram path = .error e) : Loaded fuel files path s (.error (.format e)) s
  | failed {p : Program} {e : RuntimeError} {m : Machine} {terminal : Terminal}
      (hkind : Path.kind path = .stored) (hread : files.readProgram path = .ok p)
      (hrun : Machine.runFresh fuel s.sizing p s.terminal = some (.error e, m, terminal)) :
      Loaded fuel files path s (.error (.runtime e)) { s with terminal }
  | stored {p : Program} {m : Machine} {terminal : Terminal} (hkind : Path.kind path = .stored)
      (hread : files.readProgram path = .ok p)
      (hrun : Machine.runFresh fuel s.sizing p s.terminal = some (.ok (), m, terminal)) :
      Loaded fuel files path s (.ok ()) { s with terminal, loadedFile := some path }

/-- The file that a command asks to load. -/
def requested? (s : Session) : Command → Option String
  | .load path => path
  | .reload => s.loadedFile
  | _ => none

/-- How a command ends. -/
inductive Performed (fuel : Nat) (files : FileTree) (s : Session) :
    Command → Except Error Unit → Session → Prop where
  | exit : Performed fuel files s .exit (.ok ()) s
  /-- Modes may be switched and the machine reset before the answer. -/
  | answer {command : Command} {s₁ : Session} {pieces : List String}
      (hmachine : s₁.machine = s.machine ∨ s₁.machine = s.machine.reset)
      (hterminal : s₁.terminal = s.terminal) :
      Performed fuel files s command (s₁.answer pieces).1 (s₁.answer pieces).2
  | misuse {command : Command} {cause : Misuse} (hpath : s.requested? command = none) :
      Performed fuel files s command (.error (.misuse cause)) s
  | load {command : Command} {path : String} {r : Except Error Unit} {s' : Session}
      (hpath : s.requested? command = some path) (hloaded : Loaded fuel files path s r s') :
      Performed fuel files s command r s'
  | code {source : String} {r : Except Error Unit} {s' : Session}
      (hexecuted : Executed fuel source s r s') : Performed fuel files s (.code source) r s'

/-- A program is run in one of these ways. -/
theorem launched_of_launch {p : Program} {result : Except RuntimeError Unit}
    (h : s.launch fuel p = some (result, s')) : Launched fuel p s result s' := by
  rw [launch] at h
  split at h
  · split at h
    · contradiction
    · next hdebug =>
      obtain ⟨rfl, rfl⟩ := Prod.mk.inj (Option.some.inj h)
      exact .debug hdebug
  · split at h
    · contradiction
    · next hrun =>
      obtain ⟨rfl, rfl⟩ := Prod.mk.inj (Option.some.inj h)
      exact .run hrun

/-- The run of a source text ends in one of these ways. -/
theorem executed_of_execute {source : String} (h : s.execute fuel source = some (r, s')) :
    Executed fuel source s r s' := by
  rw [execute, compileChecked] at h
  cases hcheck : checkBalanced source with
  | error e =>
    rw [hcheck] at h
    obtain ⟨rfl, rfl⟩ := Prod.mk.inj (Option.some.inj h)
    exact .unbalanced hcheck
  | ok _ =>
    rw [hcheck] at h
    dsimp only at h
    split at h
    · contradiction
    · next hlaunch =>
      obtain ⟨rfl, rfl⟩ := Prod.mk.inj (Option.some.inj h)
      exact .failed hcheck hlaunch
    · next s₁ hlaunch =>
      have hconclude := Option.some.inj h
      rw [show r = s₁.conclude.1 by rw [hconclude], show s' = s₁.conclude.2 by rw [hconclude]]
      exact .concluded hcheck hlaunch

/-- Loading a file ends in one of these ways. -/
theorem loaded_of_load (h : s.load fuel files path = some (r, s')) : Loaded fuel files path s r s' := by
  rw [load] at h
  split at h
  · next hkind =>
    obtain ⟨⟨r₁, s₁⟩, hsource, hremember⟩ := Option.map_eq_some_iff.mp h
    obtain ⟨rfl, rfl⟩ := Prod.mk.inj hremember
    rw [loadSource] at hsource
    split at hsource
    · next hread =>
      obtain ⟨rfl, rfl⟩ := Prod.mk.inj (Option.some.inj hsource)
      exact .unreadable hkind hread
    · next hread => exact .source hkind hread (executed_of_execute hsource)
  · next hkind =>
    obtain ⟨⟨r₁, s₁⟩, hstored, hremember⟩ := Option.map_eq_some_iff.mp h
    obtain ⟨rfl, rfl⟩ := Prod.mk.inj hremember
    rw [loadStored] at hstored
    split at hstored
    · next hread =>
      obtain ⟨rfl, rfl⟩ := Prod.mk.inj (Option.some.inj hstored)
      exact .malformed hkind hread
    · next hread =>
      split at hstored
      · contradiction
      · next hrun =>
        obtain ⟨rfl, rfl⟩ := Prod.mk.inj (Option.some.inj hstored)
        exact .failed hkind hread hrun
      · next hrun =>
        obtain ⟨rfl, rfl⟩ := Prod.mk.inj (Option.some.inj hstored)
        exact .stored hkind hread hrun
  · next hkind =>
    obtain ⟨rfl, rfl⟩ := Prod.mk.inj (Option.some.inj h)
    exact .unknown hkind

/-- A command ends in one of these ways. -/
theorem performed_of_perform {command : Command} (h : s.perform fuel files command = some (r, s')) :
    Performed fuel files s command r s' := by
  have hanswer {s₁ : Session} {pieces : List String} (h : some (s₁.answer pieces) = some (r, s'))
      (hmachine : s₁.machine = s.machine ∨ s₁.machine = s.machine.reset)
      (hterminal : s₁.terminal = s.terminal) : Performed fuel files s command r s' := by
    have heq := Option.some.inj h
    rw [show r = (s₁.answer pieces).1 by rw [heq], show s' = (s₁.answer pieces).2 by rw [heq]]
    exact .answer hmachine hterminal
  cases command with
  | exit =>
    obtain ⟨rfl, rfl⟩ := Prod.mk.inj (Option.some.inj h)
    exact .exit
  | reset => exact hanswer h (.inr rfl) rfl
  | load path =>
    cases path with
    | none =>
      obtain ⟨rfl, rfl⟩ := Prod.mk.inj (Option.some.inj h)
      exact .misuse rfl
    | some path => exact .load rfl (loaded_of_load h)
  | reload =>
    rw [perform] at h
    split at h
    · next path hpath => exact .load hpath (loaded_of_load h)
    · next hpath =>
      obtain ⟨rfl, rfl⟩ := Prod.mk.inj (Option.some.inj h)
      exact .misuse hpath
  | code source => exact .code (executed_of_execute h)
  | _ => exact hanswer h (.inl rfl) rfl

/-- A line is handled as its command is carried out, and fails when the command does. -/
theorem perform_of_handle {flow : Except Error Flow} (h : s.handle fuel files line = some (flow, s')) :
    ∃ r, s.perform fuel files (Command.parse line) = some (r, s') ∧
      ∀ e, flow = .error e ↔ r = .error e := by
  rw [handle] at h
  split at h
  · next hparse =>
    obtain ⟨rfl, rfl⟩ := Prod.mk.inj (Option.some.inj h)
    rw [hparse]
    exact ⟨.ok (), rfl, by simp⟩
  · split at h
    · contradiction
    · next e s₁ hperform =>
      obtain ⟨rfl, rfl⟩ := Prod.mk.inj (Option.some.inj h)
      exact ⟨.error e, hperform, by simp⟩
    · next s₁ hperform =>
      obtain ⟨rfl, rfl⟩ := Prod.mk.inj (Option.some.inj h)
      exact ⟨.ok (), hperform, by simp⟩

/-- A line other than `exit` is handled as its command is carried out. -/
theorem handle_eq (hline : Command.parse line ≠ .exit) (fuel : Nat) (files : FileTree) (s : Session) :
    s.handle fuel files line =
      (s.perform fuel files (Command.parse line)).map fun x => (x.1.map fun _ => .continues, x.2) := by
  rw [handle]
  split
  · contradiction
  · rcases s.perform fuel files (Command.parse line) with _ | ⟨_ | _, s'⟩ <;> rfl

/-- A line of code is run. -/
theorem handle_of_code {source : String} (hline : Command.parse line = .code source) (fuel : Nat) (files : FileTree)
    (s : Session) :
    s.handle fuel files line =
      (s.execute fuel source).map fun x => (x.1.map fun _ => .continues, x.2) := by
  rw [handle_eq (by rw [hline]; simp), hline]
  rfl

/-- Answering prints to the terminal and does nothing else. -/
theorem answer_eq (s : Session) (pieces : List String) :
    s.answer pieces =
      ((s.terminal.print pieces).1.mapError Error.io,
        { s with terminal := (s.terminal.print pieces).2 }) := by
  rw [answer, print]
  rcases s.terminal.print pieces with ⟨_ | _, terminal⟩ <;> rfl

/-- An answer leaves the machine and the modes alone. -/
theorem answer_frame (s : Session) (pieces : List String) :
    (s.answer pieces).2.machine = s.machine ∧ (s.answer pieces).2.modes = s.modes := by
  rw [answer_eq]
  exact ⟨rfl, rfl⟩

/-- The pieces that show the state after a run, if it is to be shown. -/
def feedbackPieces (s : Session) : List String :=
  if s.modes.feedback then ["", "\n"] ++ s.statePieces else []

/-- What follows a run that succeeded is an answer, and a reset unless the answer fails or the tape is
kept. -/
theorem conclude_eq (s : Session) :
    s.conclude =
      match s.answer s.feedbackPieces with
      | (.error e, s) => (.error e, s)
      | (.ok (), s) => (.ok (), if s.modes.continuous then s else { s with machine := s.machine.reset }) := by
  rw [conclude, feedbackPieces]
  by_cases hfeedback : s.modes.feedback = true
  · rw [if_pos hfeedback, if_pos hfeedback]
    rcases s.answer (["", "\n"] ++ s.statePieces) with ⟨_ | _, s₁⟩ <;> rfl
  · rw [if_neg hfeedback, if_neg hfeedback]
    rfl

/-- After a run that succeeded the machine is reset, unless the tape is kept or the feedback fails. -/
theorem machine_conclude (s : Session) :
    s.conclude.2.machine =
      if s.conclude.1.isOk && !s.modes.continuous then s.machine.reset else s.machine := by
  rw [conclude_eq, answer_eq]
  cases (s.terminal.print s.feedbackPieces).1 with
  | error e => rfl
  | ok _ =>
    cases hcontinuous : s.modes.continuous <;>
      simp [Except.mapError, hcontinuous, Except.isOk, Except.toBool]

/-- What follows a run changes the machine and the terminal only. -/
theorem conclude_frame (s : Session) :
    ∃ machine terminal, s.conclude.2 = { s with machine, terminal } := by
  rw [conclude_eq, answer_eq]
  cases (s.terminal.print s.feedbackPieces).1 with
  | error e => exact ⟨s.machine, _, rfl⟩
  | ok _ =>
    change ∃ machine terminal, (if s.modes.continuous then _ else _) = _
    split
    · exact ⟨s.machine, _, rfl⟩
    · exact ⟨s.machine.reset, _, rfl⟩

/-- A program is run under the debugger in debug mode and as it is otherwise. -/
theorem launch_eq (fuel : Nat) (p : Program) (s : Session) :
    s.launch fuel p =
      if s.modes.debug then
        (s.machine.debug s.colors true fuel p s.terminal s.diagnostics).map fun x =>
          (x.1, { s with machine := x.2.1, terminal := x.2.2.1, diagnostics := x.2.2.2 })
      else
        (s.machine.run fuel p s.terminal).map fun x =>
          (x.1, { s with machine := x.2.1, terminal := x.2.2 }) := by
  rw [launch]
  split
  · cases s.machine.debug s.colors true fuel p s.terminal s.diagnostics <;> rfl
  · cases s.machine.run fuel p s.terminal <;> rfl

/-- A run changes the machine, the terminal and the listing only. -/
theorem Launched.frame {p : Program} {result : Except RuntimeError Unit}
    (h : Launched fuel p s result s') :
    ∃ machine terminal diagnostics, s' = { s with machine, terminal, diagnostics } := by
  cases h with
  | debug => exact ⟨_, _, _, rfl⟩
  | run => exact ⟨_, _, s.diagnostics, rfl⟩

/-- A source text changes the machine, the terminal and the listing only. -/
theorem Executed.frame {source : String} (h : Executed fuel source s r s') :
    ∃ machine terminal diagnostics, s' = { s with machine, terminal, diagnostics } := by
  cases h with
  | unbalanced => exact ⟨_, _, _, rfl⟩
  | failed _ hlaunch => exact (launched_of_launch hlaunch).frame
  | @concluded s₁ _ hlaunch =>
    obtain ⟨_, _, _, rfl⟩ := (launched_of_launch hlaunch).frame
    obtain ⟨_, _, heq⟩ := conclude_frame _
    exact ⟨_, _, _, heq⟩

/-- Remembering a file leaves the machine alone. -/
theorem machine_remember (s : Session) (path : String) (r : Except Error Unit) :
    (s.remember path r).2.machine = s.machine := by
  cases r <;> rfl

/-- An answer does not fail on a terminal over an unlimited sink. -/
theorem answer_of_unlimited (h : s.terminal.output.Unlimited) (pieces : List String) :
    (s.answer pieces).1 = .ok () := by
  have hprint := (Sink.accepting_unlimited.writeAll pieces h).1
  rw [answer, print, Terminal.print]
  generalize Writer.writeAll pieces s.terminal.output = printed at hprint ⊢
  obtain ⟨r, out⟩ := printed
  obtain rfl : r = .ok () := hprint
  rfl

/-- What follows a run does not fail on a terminal over an unlimited sink. -/
theorem conclude_of_unlimited (h : s.terminal.output.Unlimited) : s.conclude.1 = .ok () := by
  have hanswer := answer_of_unlimited h s.feedbackPieces
  rw [conclude_eq]
  generalize s.answer s.feedbackPieces = answered at hanswer ⊢
  obtain ⟨r, s₁⟩ := answered
  obtain rfl : r = .ok () := hanswer
  rfl

/-- A run leaves a terminal over an unlimited sink. -/
theorem unlimited_of_launch {p : Program} {result : Except RuntimeError Unit}
    (hlaunch : s.launch fuel p = some (result, s')) (h : s.terminal.output.Unlimited) :
    s'.terminal.output.Unlimited := by
  cases launched_of_launch hlaunch with
  | debug hdebug => exact Machine.console_of_debug Terminal.preserves_unlimited hdebug h
  | run hrun => exact Machine.console_of_run Terminal.preserves_unlimited hrun h

end TapeMachine.Session
