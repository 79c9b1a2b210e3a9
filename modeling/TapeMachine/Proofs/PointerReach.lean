import Mathlib.Data.List.Chain
import TapeMachine.Proofs.SessionLines
import TapeMachine.Proofs.TapeContents

/-!
# How far the pointer has come

A machine is driven by calls: single steps, runs, debugged runs, rewinds and resets, next to any
consoles and with any outcome. Within a call other than a reset each state comes behind another by what
an instruction can do to the tape and the pointer, so invariants need no look at the calls.

Beside the machine goes the list of the states it has taken since it was made or last reset, those inside
a run included. The highest index is the largest pointer in this list, and the tape reaches beyond it and
holds nothing above it. The lines of a session are such calls.
-/

namespace TapeMachine

/-- The states that the steps of a repetition leave, in order. -/
def passed {σ ε : Type} (step : σ → Except ε Progress × σ) : (fuel : Nat) → σ → List σ
  | 0, _ => []
  | fuel + 1, s =>
    match step s with
    | (.error _, s) => [s]
    | (.ok .halted, s) => [s]
    | (.ok .running, s) => s :: passed step fuel s

section Passed

variable {σ ε : Type} {step : σ → Except ε Progress × σ}

/-- The states that a repetition passes follow each other as its steps do. -/
theorem isChain_passed {follows : σ → σ → Prop} (hstep : ∀ s, follows s (step s).2) (fuel : Nat) (s : σ) :
    (s :: passed step fuel s).IsChain follows := by
  induction fuel generalizing s with
  | zero => exact .singleton s
  | succ fuel ih =>
    have hnext := hstep s
    rw [passed]
    generalize step s = stepped at hnext ⊢
    obtain ⟨_ | progress, s'⟩ := stepped
    · exact .cons_cons hnext (.singleton s')
    · cases progress with
      | halted => exact .cons_cons hnext (.singleton s')
      | running => exact .cons_cons hnext (ih s')

/-- A repetition ends in the last of the states that it passes. -/
theorem getLast?_passed {fuel : Nat} {s t : σ} {r : Except ε Unit}
    (h : iterate step fuel s = some (r, t)) : (s :: passed step fuel s).getLast? = some t := by
  induction fuel generalizing s with
  | zero => contradiction
  | succ fuel ih =>
    rw [iterate] at h
    rw [passed]
    generalize step s = stepped at h ⊢
    obtain ⟨_ | progress, s'⟩ := stepped
    · obtain ⟨-, rfl⟩ := Prod.mk.inj (Option.some.inj h)
      rfl
    · cases progress with
      | halted =>
        obtain ⟨-, rfl⟩ := Prod.mk.inj (Option.some.inj h)
        rfl
      | running =>
        rw [List.getLast?_cons_cons]
        exact ih h

end Passed

/-- An instruction raises the highest index to where it moves the pointer, and no further. -/
theorem Touch.highest_eq {t t' : Tape} {pointer next : Nat} (h : Touch t pointer t' next)
    (hpointer : pointer ≤ t.highest) : t'.highest = max t.highest next := by
  cases h with
  | nothing => omega
  | right => rfl
  | left => omega
  | write => rfl

/-- A state of a machine comes behind another by what an instruction can do. -/
def Machine.Touched (m m' : Machine) : Prop := Touch m.tape m.pointer m'.tape m'.pointer

/-- A call that drives a machine. -/
inductive Call : Type 1 where
  | step {κ : Type} [Console κ] (p : Program) (c : κ)
  | stepObserved {κ σ : Type} [Console κ] (o : Observer σ) (p : Program) (c : κ) (s : σ)
  | run {κ : Type} [Console κ] (fuel : Nat) (p : Program) (c : κ)
  | runObserved {κ σ : Type} [Console κ] (o : Observer σ) (fuel : Nat) (p : Program) (c : κ) (s : σ)
  | debug {κ ω : Type} [Console κ] [Writer ω] (colors pausing : Bool) (fuel : Nat) (p : Program) (c : κ)
      (out : ω)
  | rewind
  | reset

namespace Call

/-- The machine after a call; there is none when a run uses up its fuel. -/
def after? : Call → Machine → Option Machine
  | step p c, m => some (m.step p c).2.1
  | stepObserved o p c s, m => some (m.stepObserved o p c s).2.1
  | run fuel p c, m => (m.run fuel p c).map (·.2.1)
  | runObserved o fuel p c s, m => (m.runObserved o fuel p c s).map (·.2.1)
  | debug colors pausing fuel p c out, m => (m.debug colors pausing fuel p c out).map (·.2.1)
  | rewind, m => some m.rewind
  | reset, m => some m.reset

/-- The states that a machine takes in a run by the given steps. -/
def statesOfRun {σ : Type} (machine : σ → Machine) (p : Program)
    (step : σ → Except RuntimeError Progress × σ) (fuel : Nat) (start : σ) : List Machine :=
  if p.hasHeader then machine start :: (passed step fuel start).map machine else []

/-- The states that a machine takes in a call. -/
def states : Call → Machine → List Machine
  | step p c, m => [(m.step p c).2.1]
  | stepObserved o p c s, m => [(m.stepObserved o p c s).2.1]
  | run fuel p c, m => statesOfRun Prod.fst p (Machine.stepWith p) fuel (m.rewind, c)
  | runObserved o fuel p c s, m =>
    statesOfRun Prod.fst p (Machine.stepObservedWith o p) fuel (m.rewind, c, s)
  | debug colors pausing fuel p c out, m =>
    statesOfRun Debugger.machine p (Debugger.step colors p) fuel ⟨pausing, m.rewind, c, out⟩
  | rewind, m => [m.rewind]
  | reset, m => [m.reset]

/-- The states since a machine was made or last reset, after one more call. -/
def record : Call → Machine → List Machine → List Machine
  | reset, m, _ => [m.reset]
  | call, m, seen => seen ++ call.states m

variable {m m' : Machine}

/-- The states of a run follow each other, the first behind the state that the run finds. -/
theorem touched_statesOfRun {σ : Type} (machine : σ → Machine) (p : Program)
    {step : σ → Except RuntimeError Progress × σ} (hstep : ∀ s, (machine s).Touched (machine (step s).2))
    (fuel : Nat) {start : σ} (hstart : machine start = m.rewind) :
    (m :: statesOfRun machine p step fuel start).IsChain Machine.Touched := by
  rw [statesOfRun]
  split
  · have hrewound : m.Touched (machine start) := by
      rw [hstart]
      exact .nothing
    have hpassed := (List.isChain_map machine).mpr (isChain_passed hstep fuel start)
    exact .cons_cons hrewound hpassed
  · exact .singleton m

/-- A run that ends leaves the last of its states, and one that is refused leaves the machine as it is. -/
theorem getLast?_statesOfRun {σ : Type} (machine : σ → Machine) {p : Program}
    {step : σ → Except RuntimeError Progress × σ} {fuel : Nat} {start : σ} {left : Option Machine}
    (hran : p.hasHeader = true → left = (iterate step fuel start).map fun result => machine result.2)
    (hrefused : ¬ p.hasHeader = true → left = some m) (h : left = some m') :
    (m :: statesOfRun machine p step fuel start).getLast? = some m' := by
  rw [statesOfRun]
  split
  · next hp =>
    rw [hran hp] at h
    obtain ⟨⟨r, t⟩, hiterate, rfl⟩ := Option.map_eq_some_iff.mp h
    rw [List.getLast?_cons_cons, ← List.map_cons, List.getLast?_map, getLast?_passed hiterate]
    rfl
  · next hp =>
    rw [hrefused hp] at h
    exact h

/-- The states of a call other than a reset follow each other. -/
theorem touched_states {call : Call} (hcall : call ≠ .reset) (m : Machine) :
    (m :: call.states m).IsChain Machine.Touched := by
  cases call with
  | step p c => exact .cons_cons (Machine.touch_of_step p m c) (.singleton _)
  | stepObserved o p c s =>
    refine .cons_cons ?_ (.singleton _)
    rw [Machine.stepObserved_eq]
    exact Machine.touch_of_step p m c
  | run fuel p c =>
    exact touched_statesOfRun Prod.fst p (fun s => Machine.touch_of_step p s.1 s.2) fuel rfl
  | runObserved o fuel p c s =>
    refine touched_statesOfRun Prod.fst p (fun s => ?_) fuel rfl
    rw [Machine.stepObservedWith, Machine.stepObserved_eq]
    exact Machine.touch_of_step p s.1 s.2.1
  | debug colors pausing fuel p c out =>
    refine touched_statesOfRun Debugger.machine p (fun d => ?_) fuel rfl
    rcases Debugger.machine_of_step colors p d with heq | ⟨c, heq⟩
    · rw [heq]
      exact .nothing
    · rw [heq]
      exact Machine.touch_of_step p d.machine c
  | rewind => exact .cons_cons .nothing (.singleton _)
  | reset => contradiction

/-- A call that ends leaves the last of its states. -/
theorem getLast?_states {call : Call} (h : call.after? m = some m') :
    (m :: call.states m).getLast? = some m' := by
  cases call with
  | run fuel p c =>
    refine getLast?_statesOfRun Prod.fst (fun hp => ?_) (fun hp => ?_) h
    · rw [after?, Machine.run_of_hasHeader hp, Option.map_map]
      rfl
    · rw [after?, Machine.run, if_neg hp]
      rfl
  | runObserved o fuel p c s =>
    refine getLast?_statesOfRun Prod.fst (fun hp => ?_) (fun hp => ?_) h
    · rw [after?, Machine.runObserved_of_hasHeader hp, Option.map_map]
      rfl
    · rw [after?, Machine.runObserved, if_neg hp]
      rfl
  | debug colors pausing fuel p c out =>
    refine getLast?_statesOfRun Debugger.machine (fun hp => ?_) (fun hp => ?_) h
    · rw [after?, Machine.debug_of_hasHeader hp, Option.map_map]
      rfl
    · rw [after?, Machine.debug, if_neg hp]
      rfl
  | _ =>
    obtain rfl := Option.some.inj h
    rfl

end Call

namespace Machine

/-- Carry out calls one after the other, whether or not they fail. -/
def drive : List Call → Machine → Option Machine
  | [], m => some m
  | call :: calls, m =>
    match call.after? m with
    | none => none
    | some m' => drive calls m'

/-- The states since a machine was made or last reset, after calls. -/
def recorded : List Call → Machine → List Machine → List Machine
  | [], _, seen => seen
  | call :: calls, m, seen =>
    match call.after? m with
    | none => call.record m seen
    | some m' => recorded calls m' (call.record m seen)

/-- What the states that were seen tell of a machine: the current one is among them, the highest index
is the largest of their pointers, and the tape is clean. -/
structure Reached (m : Machine) (seen : List Machine) : Prop where
  clean : m.tape.Clean
  current : m ∈ seen
  attained : ∃ n ∈ seen, n.pointer = m.tape.highest
  bounded : ∀ n ∈ seen, n.pointer ≤ m.tape.highest

namespace Reached

variable {m m' : Machine} {seen : List Machine}

/-- A new machine has taken one state, at the first cell. -/
theorem new (sizing : Sizing) : Reached (.new sizing) [.new sizing] := by
  refine ⟨.new sizing, List.mem_singleton_self _, ⟨_, List.mem_singleton_self _, rfl⟩, ?_⟩
  intro n hn
  obtain rfl := List.mem_singleton.mp hn
  exact Nat.le_refl 0

/-- A reset starts over, with one state at the first cell. -/
theorem reset (h : Reached m seen) : Reached m.reset [m.reset] := by
  refine ⟨h.clean.reset, List.mem_singleton_self _, ⟨_, List.mem_singleton_self _, rfl⟩, ?_⟩
  intro n hn
  obtain rfl := List.mem_singleton.mp hn
  exact Nat.le_refl 0

/-- A machine whose highest index rises to its pointer at most has been where its highest index is. -/
theorem snoc (h : Reached m seen) (hclean : m'.tape.Clean)
    (hhighest : m'.tape.highest = max m.tape.highest m'.pointer) : Reached m' (seen ++ [m']) := by
  refine ⟨hclean, by simp, ?_, fun n hn => ?_⟩
  · rcases Nat.le_total m.tape.highest m'.pointer with hle | hle
    · exact ⟨m', by simp, by omega⟩
    · obtain ⟨n, hn, hpointer⟩ := h.attained
      exact ⟨n, List.mem_append_left _ hn, by omega⟩
  · rcases List.mem_append.mp hn with hn | hn
    · have hle := h.bounded n hn
      omega
    · obtain rfl := List.mem_singleton.mp hn
      omega

/-- Whatever an instruction does to the tape and the pointer, the highest index stays the largest
pointer. -/
theorem touch (h : Reached m seen) (htouch : m.Touched m') :
    Reached m' (seen ++ [m']) :=
  h.snoc (htouch.clean h.clean) (htouch.highest_eq (h.bounded m h.current))

/-- States that follow each other can be added. -/
theorem along {states : List Machine} (h : Reached m seen) (hchain : (m :: states).IsChain Touched)
    (hlast : (m :: states).getLast? = some m') : Reached m' (seen ++ states) := by
  induction states generalizing m seen with
  | nil =>
    obtain rfl : m = m' := Option.some.inj hlast
    rwa [List.append_nil]
  | cons n states ih =>
    obtain ⟨htouch, hchain⟩ := List.isChain_cons_cons.mp hchain
    rw [List.getLast?_cons_cons] at hlast
    have hnext := ih (h.touch htouch) hchain hlast
    rwa [List.append_assoc] at hnext

/-- Every call adds its states to those that were seen, and a reset forgets all others. -/
theorem call (h : Reached m seen) {call : Call} (hcall : call.after? m = some m') :
    Reached m' (call.record m seen) := by
  cases call with
  | reset =>
    obtain rfl := Option.some.inj hcall
    exact h.reset
  | _ => exact h.along (Call.touched_states (by simp) m) (Call.getLast?_states hcall)

/-- After any calls the highest index is the largest pointer that was seen. -/
theorem drive {calls : List Call} (hdrive : drive calls m = some m') (h : Reached m seen) :
    Reached m' (recorded calls m seen) := by
  induction calls generalizing m seen with
  | nil =>
    obtain rfl := Option.some.inj hdrive
    exact h
  | cons call calls ih =>
    rw [Machine.drive] at hdrive
    rw [recorded]
    split at hdrive
    · contradiction
    · next hcall => exact ih hdrive (h.call hcall)

end Reached

/-- The machine stands on its tape, which reaches past the highest index and holds nothing above it;
the highest index is the largest pointer of the states that were seen, and the window shows the cells
up to there. -/
structure Bounded (m : Machine) (seen : List Machine) : Prop where
  size_pos : 0 < m.tape.size
  pointer_le : m.pointer ≤ m.tape.highest
  highest_lt : m.tape.highest < m.tape.size
  zero_above : ∀ index, m.tape.highest < index → m.tape.get index = 0
  highest_eq : (seen.map Machine.pointer).max? = some m.tape.highest
  window_eq : m.tape.window.toList = (List.range (m.tape.highest + 1)).map m.tape.get
  window_pointer : m.tape.window[m.pointer]? = some m.currentCell

/-- What is known from the states that were seen bounds the machine. -/
theorem Reached.bounds {m : Machine} {seen : List Machine} (h : Reached m seen) : Bounded m seen := by
  have hpointer := h.bounded m h.current
  have hwindow := Tape.toList_window h.clean.fits
  refine ⟨Nat.zero_lt_of_lt h.clean.fits, hpointer, h.clean.fits, h.clean.zero, ?_, hwindow, ?_⟩
  · rw [List.max?_eq_some_iff]
    refine ⟨List.mem_map.mpr h.attained, fun pointer hmem => ?_⟩
    obtain ⟨n, hn, rfl⟩ := List.mem_map.mp hmem
    exact h.bounded n hn
  · rw [← Array.getElem?_toList, hwindow, List.getElem?_map, List.getElem?_range (by omega)]
    rfl

/-- Calls that follow other calls. -/
theorem drive_append {calls more : List Call} {m m' : Machine} (h : drive calls m = some m') :
    drive (calls ++ more) m = drive more m' := by
  induction calls generalizing m with
  | nil =>
    obtain rfl := Option.some.inj h
    rfl
  | cons call calls ih =>
    rw [drive] at h
    rw [List.cons_append, drive]
    split at h
    · contradiction
    · exact ih h

end Machine

namespace Session

variable {fuel : Nat} {files : FileTree} {path : String} {s s' : Session} {r : Except Error Unit}

/-- The call that runs a program on the session's machine. -/
def launchCall (fuel : Nat) (p : Program) (s : Session) : Call :=
  if s.modes.debug then .debug s.colors true fuel p s.terminal s.diagnostics
  else .run fuel p s.terminal

/-- The calls that a source text makes. -/
def sourceCalls (fuel : Nat) (source : String) (s : Session) : List Call :=
  match compileChecked source with
  | .error _ => []
  | .ok p =>
    s.launchCall fuel p ::
      match s.launch fuel p with
      | some (.ok (), s) => if s.conclude.1.isOk && !s.modes.continuous then [.reset] else []
      | _ => []

/-- The calls that loading a file makes; a stored program runs on a machine of its own. -/
def loadCalls (fuel : Nat) (files : FileTree) (path : String) (s : Session) : List Call :=
  match Path.kind path with
  | .source =>
    match files.readText path with
    | .error _ => []
    | .ok source => .reset :: sourceCalls fuel source { s with machine := s.machine.reset }
  | _ => []

/-- The calls that a line makes. -/
def lineCalls (fuel : Nat) (files : FileTree) (line : String) (s : Session) : List Call :=
  match Command.parse line with
  | .reset => [.reset]
  | .load (some path) => s.loadCalls fuel files path
  | .reload => s.loadedFile.elim [] (s.loadCalls fuel files)
  | .code source => s.sourceCalls fuel source
  | _ => []

/-- A program is run by its call. -/
theorem after?_launchCall {p : Program} {result : Except RuntimeError Unit}
    (h : s.launch fuel p = some (result, s')) : (s.launchCall fuel p).after? s.machine = some s'.machine := by
  rw [launch] at h
  rw [launchCall]
  split at h
  · split at h
    · contradiction
    · next hmode _ _ _ _ _ hdebug =>
      obtain ⟨-, rfl⟩ := Prod.mk.inj (Option.some.inj h)
      rw [if_pos hmode, Call.after?, hdebug]
      rfl
  · split at h
    · contradiction
    · next hmode _ _ _ _ hrun =>
      obtain ⟨-, rfl⟩ := Prod.mk.inj (Option.some.inj h)
      rw [if_neg hmode, Call.after?, hrun]
      rfl

/-- A source text drives the machine by its calls. -/
theorem drive_sourceCalls {source : String} (h : Executed fuel source s r s') :
    Machine.drive (s.sourceCalls fuel source) s.machine = some s'.machine := by
  cases h with
  | unbalanced hcheck =>
    rw [sourceCalls, compileChecked, hcheck]
    rfl
  | failed hcheck hlaunch =>
    rw [sourceCalls, compileChecked, hcheck]
    dsimp only
    rw [hlaunch, Machine.drive, after?_launchCall hlaunch]
    rfl
  | @concluded s₁ hcheck hlaunch =>
    rw [sourceCalls, compileChecked, hcheck]
    dsimp only
    rw [hlaunch, Machine.drive, after?_launchCall hlaunch, machine_conclude]
    dsimp only
    split <;> rfl

/-- Loading a file drives the machine by its calls. -/
theorem drive_loadCalls (h : Loaded fuel files path s r s') :
    Machine.drive (s.loadCalls fuel files path) s.machine = some s'.machine := by
  cases h with
  | source hkind hread hexecuted =>
    rw [loadCalls, hkind]
    dsimp only
    rw [hread, machine_remember]
    exact drive_sourceCalls hexecuted
  | unknown hkind | malformed hkind | failed hkind | stored hkind =>
    rw [loadCalls, hkind]
    rfl
  | unreadable hkind hread =>
    rw [loadCalls, hkind]
    dsimp only
    rw [hread]
    rfl

/-- A line drives the machine by its calls. -/
theorem drive_lineCalls {line : String} {flow : Except Error Flow}
    (h : s.handle fuel files line = some (flow, s')) :
    Machine.drive (s.lineCalls fuel files line) s.machine = some s'.machine := by
  obtain ⟨r, hperform, -⟩ := perform_of_handle h
  rw [lineCalls]
  generalize Command.parse line = command at hperform ⊢
  have hanswer {s₁ : Session} {pieces : List String} (h : some (s₁.answer pieces) = some (r, s')) :
      s'.machine = s₁.machine := by
    have hframe := (answer_frame s₁ pieces).1
    rw [Option.some.inj h] at hframe
    exact hframe
  cases command with
  | exit =>
    obtain ⟨-, rfl⟩ := Prod.mk.inj (Option.some.inj hperform)
    rfl
  | reset => exact congrArg some (hanswer hperform).symm
  | load path =>
    cases path with
    | none =>
      obtain ⟨-, rfl⟩ := Prod.mk.inj (Option.some.inj hperform)
      rfl
    | some path => exact drive_loadCalls (loaded_of_load hperform)
  | reload =>
    rw [perform] at hperform
    split at hperform
    · next path hpath =>
      rw [hpath]
      exact drive_loadCalls (loaded_of_load hperform)
    · next hnone =>
      obtain ⟨-, rfl⟩ := Prod.mk.inj (Option.some.inj hperform)
      rw [hnone]
      rfl
  | code source => exact drive_sourceCalls (executed_of_execute hperform)
  | _ => exact congrArg some (hanswer hperform).symm

/-- A line that a session is given, with the files and the terminal it then finds. -/
structure Turn where
  fuel : Nat
  files : FileTree
  terminal : Terminal
  line : String

/-- Handle lines one after the other, whether or not they fail. -/
def handleAll : List Turn → Session → Option Session
  | [], s => some s
  | turn :: turns, s =>
    match { s with terminal := turn.terminal }.handle turn.fuel turn.files turn.line with
    | none => none
    | some (_, s') => handleAll turns s'

/-- The calls that lines make. -/
def turnCalls : List Turn → Session → List Call
  | [], _ => []
  | turn :: turns, s =>
    { s with terminal := turn.terminal }.lineCalls turn.fuel turn.files turn.line ++
      match { s with terminal := turn.terminal }.handle turn.fuel turn.files turn.line with
      | none => []
      | some (_, s') => turnCalls turns s'

/-- Lines drive the machine by their calls. -/
theorem drive_turnCalls {turns : List Turn} (h : s.handleAll turns = some s') :
    Machine.drive (s.turnCalls turns) s.machine = some s'.machine := by
  induction turns generalizing s with
  | nil => exact congrArg (·.map Session.machine) h
  | cons turn turns ih =>
    rw [handleAll] at h
    split at h
    · contradiction
    · next hhandle =>
      rw [turnCalls, hhandle]
      have hline := drive_lineCalls hhandle
      rw [Machine.drive_append hline]
      exact ih h

end Session

/-- Whatever calls drive a new machine, it is bounded by the states that it has taken since it was made
or last reset; and so is the machine of a session by those that its lines make it take. -/
theorem Machine.bounded_of_drive (sizing : Sizing) :
    (∀ calls m, drive calls (.new sizing) = some m →
      Bounded m (recorded calls (.new sizing) [.new sizing])) ∧
    ∀ (turns : List Session.Turn) (s s' : Session), s.machine = .new sizing →
      s.handleAll turns = some s' →
        drive (s.turnCalls turns) (.new sizing) = some s'.machine ∧
          Bounded s'.machine (recorded (s.turnCalls turns) (.new sizing) [.new sizing]) := by
  have hcalls {calls : List Call} {m : Machine} (h : drive calls (.new sizing) = some m) :
      Bounded m (recorded calls (.new sizing) [.new sizing]) :=
    (Reached.drive h (.new sizing)).bounds
  refine ⟨fun calls m h => hcalls h, fun turns s s' hs hturns => ?_⟩
  have hdrive := Session.drive_turnCalls hturns
  rw [hs] at hdrive
  exact ⟨hdrive, hcalls hdrive⟩

/-- Runs that fail, a reset and a debugged run on a machine that was made without a cell or growth, and
lines that fail in a session. -/
theorem Machine.bounded_of_drive_failures :
    Bounded ⟨⟨#[0, 1, 0], 1, 1⟩, 1, 17, [], 5⟩
        (recorded [.run 7 (compile ">>+<<<") ({} : Terminal), .reset,
          .debug false true 5 (compile ">+<<") ({} : Terminal) ({} : Sink), .rewind,
          .step (compile ">") ({} : Terminal)] (.new ⟨0, 0⟩) [.new ⟨0, 0⟩]) ∧
      Bounded ⟨⟨#[0, 1], 1, 1⟩, 0, 17, [], 4⟩
        (recorded (Session.turnCalls [⟨9, {}, {}, ">+"⟩, ⟨9, {}, {}, "<<"⟩, ⟨9, {}, {}, "load none.bf"⟩]
          { terminal := {}, sizing := ⟨0, 0⟩ }) (.new ⟨0, 0⟩) [.new ⟨0, 0⟩]) := by
  obtain ⟨hcalls, hturns⟩ := bounded_of_drive ⟨0, 0⟩
  refine ⟨hcalls _ _ (by decide +kernel), ?_⟩
  have hmachine : (Session.handleAll
      [⟨9, {}, {}, ">+"⟩, ⟨9, {}, {}, "<<"⟩, ⟨9, {}, {}, "load none.bf"⟩]
      { terminal := {}, sizing := ⟨0, 0⟩ }).map Session.machine =
        some ⟨⟨#[0, 1], 1, 1⟩, 0, 17, [], 4⟩ := by
    decide +kernel
  obtain ⟨s', hhandle, hmachine⟩ := Option.map_eq_some_iff.mp hmachine
  have hbounded := (hturns _ _ s' rfl hhandle).2
  rwa [hmachine] at hbounded

end TapeMachine
