import TapeMachine.Proofs.SessionLines

/-!
# Lines that are refused

A line that fails for another reason than a run-time error is refused before any instruction is
carried out: its brackets do not balance, its file cannot be read or is none, or a file has to be
named. A line of code, a stored program and a file that cannot be read are refused before anything
changes. The one exception is a source file with unbalanced brackets: it has been read, and the
machine reset for it, by the time its brackets are checked.
-/

namespace TapeMachine

/-- Whether an error refuses a line before any instruction is carried out. -/
def Error.Refuses : Error → Prop
  | .runtime _ => False
  | _ => True

namespace Session

variable {fuel : Nat} {files : FileTree} {line path : String} {s s' : Session} {r : Except Error Unit}
  {e : Error}

/-- Whether a line asks for a source file that can be read and whose brackets do not balance. -/
def LoadsUnbalanced (files : FileTree) (line : String) (s : Session) : Prop :=
  ∃ path source cause, s.requested? (Command.parse line) = some path ∧ Path.kind path = .source ∧
    files.readText path = .ok source ∧ checkBalanced source = .error cause

/-- A source text is refused for its brackets only, and before anything changes. -/
theorem Executed.of_refused {source : String} (h : Executed fuel source s (.error e) s')
    (hout : s.terminal.output.Unlimited) (he : e.Refuses) :
    (∃ cause, checkBalanced source = .error cause) ∧ s' = s := by
  generalize hr : Except.error e = r at h
  cases h with
  | unbalanced hcheck => exact ⟨⟨_, hcheck⟩, rfl⟩
  | failed =>
    obtain rfl := Except.error.inj hr
    exact absurd he id
  | concluded _ hlaunch =>
    have hok := conclude_of_unlimited (unlimited_of_launch hlaunch hout)
    rw [← hr] at hok
    contradiction

/-- A file is refused before anything changes, unless it is a source file with unbalanced brackets,
for which the machine has been reset. -/
theorem Loaded.of_refused (h : Loaded fuel files path s (.error e) s')
    (hout : s.terminal.output.Unlimited) (he : e.Refuses) :
    (s' = s ∧ (Path.kind path = .source → ∃ cause, files.readText path = .error cause)) ∨
      (s' = { s with machine := s.machine.reset } ∧ Path.kind path = .source ∧
        ∃ source cause, files.readText path = .ok source ∧ checkBalanced source = .error cause) := by
  generalize hr : Except.error e = r at h
  cases h with
  | unknown hkind => exact .inl ⟨rfl, fun hsource => by rw [hkind] at hsource; contradiction⟩
  | unreadable _ hread => exact .inl ⟨rfl, fun _ => ⟨_, hread⟩⟩
  | @source source r s₁ hkind hread hexecuted =>
    cases r with
    | error e' =>
      obtain rfl : e = e' := Except.error.inj hr
      obtain ⟨⟨cause, hcheck⟩, rfl⟩ := hexecuted.of_refused hout he
      exact .inr ⟨rfl, hkind, source, cause, hread, hcheck⟩
    | ok _ => contradiction
  | malformed hkind => exact .inl ⟨rfl, fun hsource => by rw [hkind] at hsource; contradiction⟩
  | failed =>
    obtain rfl := Except.error.inj hr
    exact absurd he id
  | stored => contradiction

/-- A line that is refused leaves the session as it was, unless it loads a source file with unbalanced
brackets: then the machine has been reset, and all else is as it was. -/
theorem handle_refused (hout : s.terminal.output.Unlimited)
    (h : s.handle fuel files line = some (.error e, s')) (he : e.Refuses) :
    (¬ s.LoadsUnbalanced files line → s' = s) ∧
      (s.LoadsUnbalanced files line → s' = { s with machine := s.machine.reset }) := by
  obtain ⟨r, hperform, herror⟩ := perform_of_handle h
  obtain rfl := (herror e).mp rfl
  simp only [LoadsUnbalanced]
  generalize Command.parse line = command at hperform ⊢
  generalize hr : Except.error e = r at hperform
  cases performed_of_perform hperform with
  | exit => contradiction
  | @answer _ s₁ pieces _ hterminal =>
    have hok := answer_of_unlimited (hterminal ▸ hout) pieces
    rw [← hr] at hok
    contradiction
  | misuse hnone =>
    refine ⟨fun _ => rfl, fun hloads => ?_⟩
    obtain ⟨path, _, _, hpath, -⟩ := hloads
    rw [hnone] at hpath
    contradiction
  | load hpath hloaded =>
    subst hr
    rcases hloaded.of_refused hout he with ⟨rfl, hunread⟩ | ⟨rfl, hkind, source, cause, hread, hcheck⟩
    · refine ⟨fun _ => rfl, fun hloads => ?_⟩
      obtain ⟨path', source, _, hpath', hkind, hread, -⟩ := hloads
      obtain rfl := Option.some.inj (hpath.symm.trans hpath')
      obtain ⟨cause, herror⟩ := hunread hkind
      rw [hread] at herror
      contradiction
    · exact ⟨fun hnot => absurd ⟨_, source, cause, hpath, hkind, hread, hcheck⟩ hnot, fun _ => rfl⟩
  | code hexecuted =>
    subst hr
    obtain ⟨-, rfl⟩ := hexecuted.of_refused hout he
    refine ⟨fun _ => rfl, fun hloads => ?_⟩
    obtain ⟨_, _, _, hpath, -⟩ := hloads
    contradiction

/-- A session in which three has been counted. -/
def counted : Session :=
  { terminal := {}, sizing := ⟨1, 1⟩, machine := ⟨⟨#[3], 1, 0⟩, 0, 19, [], 3⟩ }

/-- Files with a source file that opens a loop only. -/
def openFile : FileTree := { entries := [(["open.bf"], .file [91])] }

/-- A line of code with an open bracket is refused and leaves the count, and a file with an open
bracket is refused after the count is gone. -/
theorem handle_refused_counted :
    (∃ e s', counted.handle 1 openFile "[" = some (.error e, s') ∧ s' = counted) ∧
      ∃ e s', counted.handle 1 openFile "load open.bf" = some (.error e, s') ∧
        s' = { counted with machine := counted.machine.reset } := by
  have hunlimited : counted.terminal.output.Unlimited := ⟨rfl, rfl⟩
  have hcode : ¬ counted.LoadsUnbalanced openFile "[" := by
    rintro ⟨path, -, -, hpath, -⟩
    contradiction
  have hload : counted.LoadsUnbalanced openFile "load open.bf" :=
    ⟨"open.bf", "[", ⟨.opening, 1, 1⟩, by rfl, by rfl, by rfl, by rfl⟩
  have hcodeFails : counted.handle 1 openFile "[" =
      some (.error (.source ⟨.opening, 1, 1⟩), counted) := by
    rfl
  have hloadFails : counted.handle 1 openFile "load open.bf" =
      some (.error (.source ⟨.opening, 1, 1⟩), { counted with machine := counted.machine.reset }) := by
    rfl
  exact ⟨⟨_, _, hcodeFails, (handle_refused hunlimited hcodeFails trivial).1 hcode⟩,
    ⟨_, _, hloadFails, (handle_refused hunlimited hloadFails trivial).2 hload⟩⟩

/-- Not every line that is refused leaves the session as it was. -/
theorem handle_refused_changes_machine :
    ¬ ∀ (s s' : Session) (fuel : Nat) (files : FileTree) (line : String) (e : Error),
        s.terminal.output.Unlimited → s.handle fuel files line = some (.error e, s') → e.Refuses →
          s'.machine = s.machine ∧ s'.modes = s.modes ∧ s'.loadedFile = s.loadedFile := by
  intro hall
  have h := hall counted { counted with machine := counted.machine.reset } 1 openFile "load open.bf"
    (.source ⟨.opening, 1, 1⟩) ⟨rfl, rfl⟩ (by rfl) trivial
  have hmachine : counted.machine.reset ≠ counted.machine := by decide
  exact hmachine h.1

end Session

end TapeMachine
