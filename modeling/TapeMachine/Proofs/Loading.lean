import TapeMachine.Proofs.SessionPairs

/-!
# Loading a file forgets the past

A source file is run after a reset, on a tape that is clean whatever happened before. So what loading it
does depends on the file, the modes and the unread input, and not on the lines that the session has seen,
on how they ended or on the sizing; loaded again with the same input it does the same again. A stored
program runs on a machine of its own and leaves that of the session as it was.
-/

namespace TapeMachine

/-- A machine whose highest index lies on its tape is like itself. -/
theorem Machine.Alike.refl {m : Machine} (h : m.tape.highest < m.tape.size) : Alike m m :=
  ⟨⟨fun _ => rfl, rfl, h, h⟩, rfl, rfl, rfl, rfl⟩

/-- A reset makes machines with clean tapes alike. -/
theorem Machine.alike_reset {m n : Machine} (hm : m.tape.Clean) (hn : n.tape.Clean) :
    Alike m.reset n.reset :=
  ⟨⟨fun index => (hm.get_reset index).trans (hn.get_reset index).symm, rfl, hm.reset.fits,
    hn.reset.fits⟩, rfl, rfl, rfl, rfl⟩

namespace Session

variable {fuel : Nat} {files : FileTree} {line path : String} {s s' t : Session} {r : Except Error Unit}

/-- Every session is in its own surroundings. -/
theorem SameSurroundings.refl (s : Session) : SameSurroundings s s :=
  ⟨rfl, rfl, rfl, .inl rfl, .inl rfl⟩

/-- A stored program that can be read is run on a new machine, and only the terminal is kept. -/
theorem loadStored_eq {p : Program} (hread : files.readProgram path = .ok p) (fuel : Nat) (s : Session) :
    s.loadStored fuel files path =
      (Machine.runFresh fuel s.sizing p s.terminal).map fun x =>
        (x.1.mapError Error.runtime, { s with terminal := x.2.2 }) := by
  rw [loadStored, hread]
  dsimp only
  rcases Machine.runFresh fuel s.sizing p s.terminal with _ | ⟨_ | _, m, terminal⟩ <;> rfl

/-- Loading a file ends alike in the same surroundings, for a source file that can be read whatever the
machines are. -/
theorem SameSurroundings.load (h : SameSurroundings s t) (hs : s.machine.tape.Clean)
    (ht : t.machine.tape.Clean) (fuel : Nat) (files : FileTree) (path : String)
    (hpast : s.machine.Alike t.machine ∨
      Path.kind path = .source ∧ ∃ source, files.readText path = .ok source) :
    Option.Rel (fun a b => a.1 = b.1 ∧ Parallel s t a.2 b.2) (s.load fuel files path)
      (t.load fuel files path) := by
  have hremember (a b : Except Error Unit × Session) (hab : a.1 = b.1 ∧ Parallel s t a.2 b.2) :
      (a.2.remember path a.1).1 = (b.2.remember path b.1).1 ∧
        Parallel s t (a.2.remember path a.1).2 (b.2.remember path b.1).2 := by
    rw [← hab.1]
    exact hab.2.remember path a.1
  rw [Session.load, Session.load]
  cases hkind : Path.kind path with
  | source =>
    apply rel_map _ hremember
    rw [loadSource, loadSource]
    cases hread : files.readText path with
    | error e =>
      have hmachine := hpast.resolve_right fun hsource => by simp [hread] at hsource
      exact .some ⟨rfl, h.parallel hmachine⟩
    | ok source =>
      have hreset : Parallel s t { s with machine := s.machine.reset } { t with machine := t.machine.reset } :=
        ⟨h.modes, h.colors, Machine.alike_reset hs ht, ⟨h.input, h.output.parallel⟩,
          h.diagnostics.parallel⟩
      exact hreset.execute fuel source
  | stored =>
    have hmachine := hpast.resolve_right fun hsource => by simp [hkind] at hsource
    apply rel_map _ hremember
    cases hread : files.readProgram path with
    | error e =>
      rw [loadStored, loadStored, hread]
      exact .some ⟨rfl, h.parallel hmachine⟩
    | ok p =>
      have hconsole := Terminal.indistinct_parallel
        (Sink.respected_parallel s.terminal.output t.terminal.output)
      have hrun := (Machine.Alike.new s.sizing t.sizing).run_beside
        ⟨h.input, h.output.parallel⟩ hconsole fuel p
      rw [loadStored_eq hread, loadStored_eq hread]
      apply rel_map hrun
      intro a b hab
      exact ⟨by rw [hab.result], h.modes, h.colors, hmachine, hab.console, h.diagnostics.parallel⟩
  | unknown =>
    have hmachine := hpast.resolve_right fun hsource => by simp [hkind] at hsource
    exact .some ⟨rfl, h.parallel hmachine⟩

/-- Loading a file leaves unlimited sinks unlimited. -/
theorem unlimited_of_load (hs : s.machine.tape.Clean) (h : s.load fuel files path = some (r, s')) :
    (s.terminal.output.Unlimited → s'.terminal.output.Unlimited) ∧
      (s.diagnostics.Unlimited → s'.diagnostics.Unlimited) := by
  -- The session next to itself is a pair in the same surroundings, and pairs keep this.
  have hself := (SameSurroundings.refl s).load hs hs fuel files path (.inl (.refl hs.fits))
  rw [h] at hself
  obtain ⟨-, hpair⟩ := Option.rel_some_some.mp hself
  exact ⟨hpair.terminal.output.unlimited, hpair.diagnostics.unlimited⟩

/-- A file that was loaded with success is remembered; it is a source file that can be read, or it leaves the
machine alone. Modes and colors stay. -/
theorem Loaded.of_ok (h : Loaded fuel files path s (.ok ()) s') :
    s'.loadedFile = some path ∧ s'.modes = s.modes ∧ s'.colors = s.colors ∧
      (s'.machine = s.machine ∨ Path.kind path = .source ∧ ∃ source, files.readText path = .ok source) := by
  generalize hr : (Except.ok () : Except Error Unit) = r at h
  cases h with
  | @source source r s₁ hkind hread hexecuted =>
    cases r with
    | error e => contradiction
    | ok _ =>
      obtain ⟨machine, terminal, diagnostics, rfl⟩ := hexecuted.frame
      exact ⟨rfl, rfl, rfl, .inr ⟨hkind, source, hread⟩⟩
  | stored => exact ⟨rfl, rfl, rfl, .inl rfl⟩
  | _ => contradiction

/-- The end of a line that loads a stored program and the end of a run of that program on a new machine:
the session has the result and the terminal of the run, and its machine and its modes are as they were. -/
structure RanApart (s : Session) (a : Except Error Flow × Session)
    (b : Except RuntimeError Unit × Machine × Terminal) : Prop where
  result : a.1 = (b.1.mapError Error.runtime).map fun _ => .continues
  terminal : a.2.terminal = b.2.2
  machine : a.2.machine = s.machine
  modes : a.2.modes = s.modes

/-- A line that loads a file. -/
theorem handle_of_load (hline : Command.parse line = .load (some path)) (fuel : Nat) (files : FileTree)
    (s : Session) :
    s.handle fuel files line = (s.load fuel files path).map fun x => (x.1.map fun _ => .continues, x.2) := by
  rw [handle_eq (by rw [hline]; simp), hline]
  rfl

/-- A line that loads the last file again. -/
theorem handle_of_reload (hline : Command.parse line = .reload) (hfile : s.loadedFile = some path)
    (fuel : Nat) (files : FileTree) :
    s.handle fuel files line = (s.load fuel files path).map fun x => (x.1.map fun _ => .continues, x.2) := by
  rw [handle_eq (by rw [hline]; simp), hline, perform, hfile]

/-- A stored program that can be read ends as on a new machine of any sizing, and apart from the session's
own. -/
theorem ranApart_of_stored {p : Program} (hline : Command.parse line = .load (some path))
    (hkind : Path.kind path = .stored) (hread : files.readProgram path = .ok p) (fuel : Nat)
    (sizing : Sizing) (s : Session) :
    Option.Rel (RanApart s) (s.handle fuel files line) (Machine.runFresh fuel sizing p s.terminal) := by
  have hrun := (Machine.Alike.new s.sizing sizing).run fuel p s.terminal
  rw [handle_of_load hline, load, hkind]
  dsimp only
  rw [loadStored_eq hread, Machine.runFresh, Machine.runFresh]
  generalize Machine.run fuel p (.new s.sizing) s.terminal = ran at hrun ⊢
  generalize Machine.run fuel p (.new sizing) s.terminal = ran' at hrun ⊢
  cases hrun with
  | none => exact .none
  | @some a b hab =>
    obtain ⟨r, m, terminal⟩ := a
    obtain ⟨r', m', terminal'⟩ := b
    obtain rfl : r = r' := hab.result
    obtain rfl : terminal = terminal' := hab.surroundings
    cases r with
    | error e => exact .some ⟨rfl, rfl, rfl, rfl⟩
    | ok _ => exact .some ⟨rfl, rfl, rfl, rfl⟩

/-- After a file was loaded with success, loading it again on the same input does the same again. -/
theorem reload_sameEffect {flow : Flow} {again : String} (hs : s.Reachable)
    (hout : s.terminal.output.Unlimited) (hlist : s.diagnostics.Unlimited)
    (hline : Command.parse line = .load (some path)) (hagain : Command.parse again = .reload)
    (h : s.handle fuel files line = some (.ok flow, s')) :
    ∃ b, (s'.withTerminal ⟨s.terminal.input, s'.terminal.output⟩).handle fuel files again = some b ∧
      SameEffect s (s'.withTerminal ⟨s.terminal.input, s'.terminal.output⟩) (.ok flow, s') b := by
  have hturn : s.handleAll [⟨fuel, files, s.terminal, line⟩] = some s' := by
    rw [handleAll, h]
    rfl
  have hclean' := (hs.handleAll hturn).clean
  rw [handle_of_load hline] at h
  obtain ⟨⟨r, s₁⟩, hload, heq⟩ := Option.map_eq_some_iff.mp h
  obtain ⟨hflow, rfl⟩ : r.map (fun _ => Flow.continues) = .ok flow ∧ s₁ = s' := Prod.mk.inj heq
  cases r with
  | error e => contradiction
  | ok _ =>
    obtain ⟨hfile, hmodes, hcolors, hmachine⟩ := (loaded_of_load hload).of_ok
    obtain ⟨hout', hlist'⟩ := unlimited_of_load hs.clean hload
    have hsurroundings : SameSurroundings s (s₁.withTerminal ⟨s.terminal.input, s₁.terminal.output⟩) :=
      ⟨hmodes.symm, hcolors.symm, rfl, .inr ⟨hout, hout' hout⟩, .inr ⟨hlist, hlist' hlist⟩⟩
    have hpast : s.machine.Alike s₁.machine ∨
        Path.kind path = .source ∧ ∃ source, files.readText path = .ok source := by
      rcases hmachine with heq | hsource
      · exact .inl (heq ▸ .refl hclean'.fits)
      · exact .inr hsource
    have hrel := hsurroundings.load hs.clean hclean' fuel files path hpast
    rw [hload] at hrel
    have hfile' : (s₁.withTerminal ⟨s.terminal.input, s₁.terminal.output⟩).loadedFile = some path := hfile
    rw [handle_of_reload hagain hfile']
    generalize (s₁.withTerminal ⟨s.terminal.input, s₁.terminal.output⟩).load fuel files path = loaded at hrel ⊢
    cases hrel with
    | @some _ b hab => exact ⟨_, rfl, hab.2.sameEffect (by rw [← hab.1, hflow])⟩

/-- Whatever lines two sessions have seen, loading a source file that can be read has the same effect in
the same surroundings. A file that was loaded with success has it again when it is loaded again with the
same input and over unlimited sinks. A stored program is refused or ends as on a new machine of any
sizing, and leaves the machine and the modes of the session as they were. -/
theorem load_forgets_past :
    (∀ (s t : Session) (fuel : Nat) (files : FileTree) (line path source : String),
      s.Reachable → t.Reachable → SameSurroundings s t → Command.parse line = .load (some path) →
        Path.kind path = .source → files.readText path = .ok source →
          Option.Rel (SameEffect s t) (s.handle fuel files line) (t.handle fuel files line)) ∧
    (∀ (s s' : Session) (fuel : Nat) (files : FileTree) (line again path : String) (flow : Flow),
      s.Reachable → s.terminal.output.Unlimited → s.diagnostics.Unlimited →
        Command.parse line = .load (some path) → Command.parse again = .reload →
          s.handle fuel files line = some (.ok flow, s') →
            ∃ b, (s'.withTerminal ⟨s.terminal.input, s'.terminal.output⟩).handle fuel files again = some b ∧
              SameEffect s (s'.withTerminal ⟨s.terminal.input, s'.terminal.output⟩) (.ok flow, s') b) ∧
    ∀ (s : Session) (fuel : Nat) (files : FileTree) (line path : String),
      Command.parse line = .load (some path) → Path.kind path = .stored →
        (∀ e, files.readProgram path = .error e →
          s.handle fuel files line = some (.error (.format e), s)) ∧
        ∀ p sizing, files.readProgram path = .ok p →
          Option.Rel (RanApart s) (s.handle fuel files line)
            (Machine.runFresh fuel sizing p s.terminal) := by
  refine ⟨fun s t fuel files line path source hs ht h hline hkind hread => ?_,
    fun s s' fuel files line again path flow hs hout hlist hline hagain h =>
      reload_sameEffect hs hout hlist hline hagain h,
    fun s fuel files line path hline hkind => ⟨fun e hread => ?_, fun p sizing hread => ?_⟩⟩
  · rw [handle_of_load hline, handle_of_load hline]
    apply rel_map (h.load hs.clean ht.clean fuel files path (.inr ⟨hkind, source, hread⟩))
    intro a b hab
    exact hab.2.sameEffect (by rw [hab.1])
  · rw [handle_of_load hline, load, hkind]
    dsimp only
    rw [loadStored, hread]
    rfl
  · exact ranApart_of_stored hline hkind hread fuel sizing s

/-- A session in which a line has failed after it raised a cell, with a letter left to read. -/
def stalled : Session :=
  { terminal := { input := [65] }, sizing := ⟨1, 1⟩, machine := ⟨⟨#[1], 1, 0⟩, 0, 17, [], 2⟩ }

/-- A new session with more cells and the same letter to read. -/
def unused : Session := { terminal := { input := [65] }, sizing := ⟨3, 2⟩ }

/-- Files with a source file that writes the letter after the one it reads, and with a stored `+`. -/
def letterFiles : FileTree :=
  { entries := [(["next.bf"], .file [44, 43, 46]), (["one.bfc"], .file (serialize (compile "+")))] }

/-- The line `+<` leads to the session in which it has failed. -/
theorem stalled_reachable : stalled.Reachable := by
  have hturn : handleAll [⟨9, {}, { input := [65] }, "+<"⟩] { terminal := {}, sizing := ⟨1, 1⟩ } =
      some stalled := by
    cbv
  exact ⟨⟨1, 1⟩, _, _, rfl, hturn⟩

/-- The failed line does not show in what is loaded next, and the program `+` does not show in the session. -/
theorem load_forgets_past_failure :
    Option.Rel (SameEffect stalled unused) (stalled.handle 9 letterFiles "load next.bf")
        (unused.handle 9 letterFiles "load next.bf") ∧
      (∃ s' b, stalled.handle 9 letterFiles "load next.bf" = some (.ok .continues, s') ∧
        (s'.withTerminal ⟨[65], s'.terminal.output⟩).handle 9 letterFiles "reload" = some b ∧
          SameEffect stalled (s'.withTerminal ⟨[65], s'.terminal.output⟩) (.ok .continues, s') b) ∧
        Option.Rel (RanApart stalled) (stalled.handle 9 letterFiles "load one.bfc")
          (Machine.runFresh 9 ⟨5, 5⟩ (compile "+") stalled.terminal) := by
  obtain ⟨hsource, hreload, hstored⟩ := load_forgets_past
  have hunused : unused.Reachable := ⟨⟨3, 2⟩, unused, [], rfl, rfl⟩
  have hsurroundings : SameSurroundings stalled unused := ⟨rfl, rfl, rfl, .inl rfl, .inl rfl⟩
  refine ⟨hsource stalled unused 9 letterFiles "load next.bf" "next.bf" ",+." stalled_reachable hunused
    hsurroundings (by rfl) (by rfl) (by rfl), ?_, ?_⟩
  · have hends : (stalled.handle 9 letterFiles "load next.bf").map (fun x => x.1.toOption) =
        some (some .continues) := by
      decide +kernel
    obtain ⟨⟨_ | flow, s'⟩, hload, hflow⟩ := Option.map_eq_some_iff.mp hends
    · contradiction
    · obtain rfl : flow = .continues := Option.some.inj hflow
      obtain ⟨b, hagain, heffect⟩ := hreload stalled s' 9 letterFiles "load next.bf" "reload" "next.bf"
        .continues stalled_reachable ⟨rfl, rfl⟩ ⟨rfl, rfl⟩ (by rfl) (by rfl) hload
      exact ⟨s', b, hload, hagain, heffect⟩
  · have hread : (letterFiles.readProgram "one.bfc").toOption = some (compile "+") := by decide +kernel
    cases hprogram : letterFiles.readProgram "one.bfc" with
    | error e =>
      rw [hprogram] at hread
      contradiction
    | ok p =>
      rw [hprogram] at hread
      obtain rfl : p = compile "+" := Option.some.inj hread
      exact (hstored stalled 9 letterFiles "load one.bfc" "one.bfc" (by rfl) (by rfl)).2 _ ⟨5, 5⟩ hprogram

end Session

end TapeMachine
