import TapeMachine.Proofs.SessionPairs

/-!
# Lines of code when the tape is not kept

When the tape is not kept, a line of code that succeeds leaves a blank machine, and the next line of code
finds what it would find as the first line of a new session. A line that fails breaks this: the reset is
part of what follows a run that succeeded, so the machine stays where the run has stopped.
-/

namespace TapeMachine

/-- The state of a machine that is reset. -/
structure Machine.Blank (m : Machine) : Prop where
  cells : ∀ index, m.tape.get index = 0
  highest : m.tape.highest = 0
  pointer : m.pointer = 0
  steps : m.steps = 0
  loopStack : m.loopStack = []
  ip : m.ip = Program.entry

/-- A reset blanks a machine with a clean tape. -/
theorem Machine.blank_reset {m : Machine} (h : m.tape.Clean) : Blank m.reset :=
  ⟨h.get_reset, rfl, rfl, rfl, rfl, rfl⟩

namespace Session

variable {fuel : Nat} {files : FileTree} {line source : String} {s s' s₁ s₂ : Session}
  {flow : Except Error Flow}

/-- A turn in which a text with balanced brackets is run, at a terminal over an unlimited sink. -/
structure Turn.RunsCode (turn : Turn) (source : String) : Prop where
  line : Command.parse turn.line = .code source
  balanced : checkBalanced source = .ok ()
  output : turn.terminal.output.Unlimited

/-- Lines of code leave the modes alone. -/
theorem modes_of_handleAll {turns : List Turn} (hturns : ∀ turn ∈ turns, ∃ source, turn.RunsCode source)
    (h : s.handleAll turns = some s') : s'.modes = s.modes := by
  induction turns generalizing s with
  | nil =>
    obtain rfl := Option.some.inj h
    rfl
  | cons turn turns ih =>
    rw [handleAll] at h
    split at h
    · contradiction
    · next s₁ hhandle =>
      obtain ⟨source, hturn⟩ := hturns turn (List.mem_cons_self ..)
      rw [handle_of_code hturn.line] at hhandle
      obtain ⟨⟨r, s₁⟩, hexecute, heq⟩ := Option.map_eq_some_iff.mp hhandle
      obtain ⟨-, rfl⟩ := Prod.mk.inj heq
      have hmodes : s₁.modes = s.modes := by
        obtain ⟨machine, terminal, diagnostics, rfl⟩ := (executed_of_execute hexecute).frame
        rfl
      have hrest := ih (fun turn hmem => hturns turn (List.mem_cons_of_mem _ hmem)) h
      exact hrest.trans hmodes

/-- Over an unlimited sink and with the tape not kept, a text with balanced brackets leaves a blank machine,
or it fails at run time and leaves what the run has left. -/
theorem Executed.blank_or_failed {r : Except Error Unit} (h : Executed fuel source s r s')
    (hcheck : checkBalanced source = .ok ()) (hout : s.terminal.output.Unlimited)
    (hmode : s.modes.continuous = false) {seen : List Machine} (hseen : s.machine.Reached seen) :
    (r = .ok () ∧ ∃ m : Machine, m.tape.Clean ∧ s'.machine = m.reset) ∨
      ∃ e, r = .error (.runtime e) ∧ s.launch fuel (compile source) = some (.error e, s') := by
  cases h with
  | unbalanced hfail =>
    rw [hcheck] at hfail
    contradiction
  | failed _ hlaunch => exact .inr ⟨_, rfl, hlaunch⟩
  | @concluded s₁ _ hlaunch =>
    have hok := conclude_of_unlimited (unlimited_of_launch hlaunch hout)
    have hclean := (hseen.call (after?_launchCall hlaunch)).clean
    have hmodes : s₁.modes = s.modes := by
      obtain ⟨_, _, _, rfl⟩ := (launched_of_launch hlaunch).frame
      rfl
    refine .inl ⟨hok, s₁.machine, hclean, ?_⟩
    rw [machine_conclude, hok, hmodes, hmode]
    rfl

/-- With the tape not kept, each line of code in a sequence of such lines either succeeds, leaves a blank
machine and lets the next line of code have the effect that it would have as the first line of a new
session in the same surroundings; or it fails at run time, and the machine stays where the run has
stopped. -/
theorem isolated_after_success {before : List Turn} {turn : Turn} (hs : s.Reachable)
    (hmode : s.modes.continuous = false) (hbefore : ∀ turn ∈ before, ∃ source, turn.RunsCode source)
    (hs₁ : s.handleAll before = some s₁) (hturn : turn.RunsCode source)
    (h : (s₁.withTerminal turn.terminal).handle turn.fuel turn.files turn.line = some (flow, s₂)) :
    (flow = .ok .continues ∧ s₂.machine.Blank ∧
      ∀ (next : Turn) (source : String) (fresh : Session), next.RunsCode source →
        fresh.machine = .new fresh.sizing →
        SameSurroundings (s₂.withTerminal next.terminal) fresh →
          Option.Rel (SameEffect (s₂.withTerminal next.terminal) fresh)
            ((s₂.withTerminal next.terminal).handle next.fuel next.files next.line)
            (fresh.handle next.fuel next.files next.line)) ∨
    ∃ e, flow = .error (.runtime e) ∧
      (s₁.withTerminal turn.terminal).launch turn.fuel (compile source) = some (.error e, s₂) := by
  obtain ⟨seen, hseen⟩ := (hs.handleAll hs₁).reached
  have hmode₁ : s₁.modes.continuous = false := by rw [modes_of_handleAll hbefore hs₁, hmode]
  rw [handle_of_code hturn.line] at h
  obtain ⟨⟨r, s₂⟩, hexecute, heq⟩ := Option.map_eq_some_iff.mp h
  obtain ⟨rfl, rfl⟩ := Prod.mk.inj heq
  rcases (executed_of_execute hexecute).blank_or_failed hturn.balanced hturn.output hmode₁ hseen with
    ⟨rfl, m, hclean, hmachine⟩ | ⟨e, rfl, hlaunch⟩
  · refine .inl ⟨rfl, hmachine ▸ Machine.blank_reset hclean, ?_⟩
    intro next source fresh hnext hfresh hsurroundings
    have hnew : s₂.machine.Alike fresh.machine := by
      rw [hmachine, hfresh]
      exact Machine.alike_reset_new hclean fresh.sizing
    rw [handle_of_code hnext.line, handle_of_code hnext.line]
    apply rel_map ((hsurroundings.parallel hnew).execute next.fuel source)
    intro a b hab
    exact hab.2.sameEffect (by rw [hab.1])
  · exact .inr ⟨e, rfl, hlaunch⟩

/-- A new session in which the tape is not kept. -/
def forgetful (sizing : Sizing) (terminal : Terminal) : Session :=
  { terminal, sizing, modes := { continuous := false } }

/-- The session after the line `+<`, which has failed. -/
def spent : Session := { forgetful ⟨1, 1⟩ {} with machine := ⟨⟨#[1], 1, 0⟩, 0, 17, [], 2⟩ }

/-- The session after one more line `>`, which has succeeded. -/
def wiped : Session := { forgetful ⟨1, 1⟩ {} with machine := ⟨⟨#[0, 0], 1, 0⟩, 0, 16, [], 0⟩ }

/-- Behind a line that has failed, a line that succeeds leaves a blank machine, and the next line has the
effect that it has in a new session with more cells. -/
theorem isolated_after_success_failure :
    (forgetful ⟨1, 1⟩ {}).handleAll [⟨9, {}, {}, "+<"⟩] = some spent ∧
      spent.handle 9 {} ">" = some (.ok .continues, wiped) ∧ wiped.machine.Blank ∧
        Option.Rel (SameEffect (wiped.withTerminal ⟨[66], {}⟩) (forgetful ⟨4, 4⟩ ⟨[66], {}⟩))
          ((wiped.withTerminal ⟨[66], {}⟩).handle 9 {} ",.")
          ((forgetful ⟨4, 4⟩ ⟨[66], {}⟩).handle 9 {} ",.") := by
  have hnew : (forgetful ⟨1, 1⟩ {}).Reachable := ⟨⟨1, 1⟩, _, [], rfl, rfl⟩
  have hcode (line : String) (terminal : Terminal) (hline : Command.parse line = .code line)
      (hcheck : checkBalanced line = .ok ()) (hout : terminal.output.Unlimited) :
      Turn.RunsCode ⟨9, {}, terminal, line⟩ line := ⟨hline, hcheck, hout⟩
  have hbefore : (forgetful ⟨1, 1⟩ {}).handleAll [⟨9, {}, {}, "+<"⟩] = some spent := by cbv
  have hline : spent.handle 9 {} ">" = some (.ok .continues, wiped) := by cbv
  have hisolated := isolated_after_success hnew rfl
    (fun turn hturn => ⟨"+<", List.mem_singleton.mp hturn ▸ hcode "+<" {} (by rfl) (by rfl) ⟨rfl, rfl⟩⟩)
    hbefore (hcode ">" {} (by rfl) (by rfl) ⟨rfl, rfl⟩) hline
  rcases hisolated with ⟨-, hblank, hnext⟩ | ⟨e, herror, -⟩
  · refine ⟨hbefore, hline, hblank, ?_⟩
    exact hnext ⟨9, {}, ⟨[66], {}⟩, ",."⟩ ",." (forgetful ⟨4, 4⟩ ⟨[66], {}⟩)
      (hcode ",." ⟨[66], {}⟩ (by rfl) (by rfl) ⟨rfl, rfl⟩) rfl ⟨rfl, rfl, rfl, .inl rfl, .inl rfl⟩
  · cases herror

/-- A line of code that fails can leave a machine that is not blank. -/
theorem not_blank_after_failure :
    ¬ ∀ (s s' : Session) (fuel : Nat) (files : FileTree) (line source : String) (flow : Except Error Flow),
        s.Reachable → s.modes.continuous = false → s.terminal.output.Unlimited →
          Command.parse line = .code source → checkBalanced source = .ok () →
            s.handle fuel files line = some (flow, s') →
              (flow = .ok .continues ∨ ∃ e, flow = .error (.runtime e)) → s'.machine.Blank := by
  intro hall
  have hline : (forgetful ⟨1, 1⟩ {}).handle 9 {} "+<" =
      some (.error (.runtime (.pointerUnderflow 17)), spent) := by
    cbv
  have hblank := hall (forgetful ⟨1, 1⟩ {}) spent 9 {} "+<" "+<" _ ⟨⟨1, 1⟩, _, [], rfl, rfl⟩ rfl ⟨rfl, rfl⟩
    (by rfl) (by rfl) hline (.inr ⟨_, rfl⟩)
  exact absurd (hblank.cells 0) (by decide)

end Session

end TapeMachine
