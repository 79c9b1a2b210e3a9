import TapeMachine.Proofs.LineReading
import TapeMachine.Proofs.SessionLines

/-!
# The lines that a run reads

As long as every line that is asked for has its newline, nothing behind that newline plays a part: with
more input at the end, steps do the same and leave the added input behind what they left before. So a
run depends on as many lines as it carries out `input` instructions, and code that is given to a session
neither takes nor notices the lines that come after those.
-/

namespace TapeMachine

open Relation (ReflTransGen)

/-- So many lines, each with its newline, stand at the start of an input, before the rest. -/
inductive LinesTaken : (n : Nat) → (input rest : List UInt8) → Prop where
  | none {input : List UInt8} : LinesTaken 0 input input
  | line {n : Nat} {text behind rest : List UInt8} (h : 10 ∉ text) (hbehind : LinesTaken n behind rest) :
      LinesTaken (n + 1) (text ++ 10 :: behind) rest

/-- Lines taken after other lines are as many as both together. -/
theorem LinesTaken.trans {n k : Nat} {input middle rest : List UInt8} (h : LinesTaken n input middle)
    (h' : LinesTaken k middle rest) : LinesTaken (n + k) input rest := by
  induction h with
  | none => rwa [Nat.zero_add]
  | line hnot _ ih =>
    rw [Nat.add_right_comm]
    exact .line hnot (ih h')

/-- The terminal with more input behind what it has. -/
def Terminal.fed (t : Terminal) (more : List UInt8) : Terminal := { t with input := t.input ++ more }

/-- The session at a terminal with more input. -/
def Session.fed (s : Session) (more : List UInt8) : Session := { s with terminal := s.terminal.fed more }

/-- A line with its newline is read in the same way with more input at the end. -/
theorem Terminal.readLine_fed {t : Terminal} (hout : t.output.Unlimited) (hline : 10 ∈ t.input) :
    LinesTaken 1 t.input t.readLine.2.input ∧
      ∀ more, (t.fed more).readLine = (t.readLine.1, t.readLine.2.fed more) := by
  obtain ⟨text, rest, hinput, hnot⟩ := List.eq_append_cons_of_mem hline
  have hfirst : FirstLine t.input (text ++ [10]) rest := hinput ▸ .ended hnot
  rw [readLine_of_firstLine hout hfirst]
  constructor
  · rw [hinput]
    exact .line hnot .none
  · intro more
    have hfed : FirstLine (t.fed more).input (text ++ [10]) (rest ++ more) := by
      rw [fed, hinput, List.append_assoc, List.cons_append]
      exact .ended hnot
    exact readLine_of_firstLine (t := t.fed more) hout hfed

namespace Machine

variable {p : Program} {m : Machine} {t : Terminal}

/-- An instruction that is not `input` leaves the input alone and does the same with more of it. -/
theorem exec_fed {op : Opcode} (hop : op ≠ .input) (hout : t.output.Unlimited) (m : Machine) :
    (exec p op m t).2.2.input = t.input ∧
      ∀ more, exec p op m (t.fed more) =
        ((exec p op m t).1, (exec p op m t).2.1, (exec p op m t).2.2.fed more) := by
  by_cases houtput : op = .output
  · subst houtput
    have hwrite {t : Terminal} (hout : t.output.Unlimited) (char : Char) :
        Console.writeChar char t = (.ok (), { t with output.text := t.output.text ++ char.toString }) :=
      Terminal.writeChar_of_unlimited hout char
    simp only [exec]
    cases charOfCell? m.currentCell with
    | none => exact ⟨rfl, fun more => rfl⟩
    | some char =>
      dsimp only
      rw [hwrite hout]
      constructor
      · rfl
      · intro more
        rw [hwrite (t := t.fed more) hout]
        rfl
  · obtain ⟨r, m', hexec⟩ := exec_of_silent p houtput hop m
    simp only [hexec]
    exact ⟨trivial, fun more => trivial⟩

/-- A step takes a line if it is on `input` and nothing otherwise, and if such a line has its newline,
the step does the same with more input at the end and leaves it there. -/
theorem step_fed (hout : t.output.Unlimited) (hline : m.fetch p = .ok .input → 10 ∈ t.input) :
    LinesTaken (if m.fetch p = .ok .input then 1 else 0) t.input (step p m t).2.2.input ∧
      ∀ more, step p m (t.fed more) =
        ((step p m t).1, (step p m t).2.1, (step p m t).2.2.fed more) := by
  by_cases hinput : m.fetch p = .ok .input
  · obtain ⟨htaken, hread⟩ := Terminal.readLine_fed hout (hline hinput)
    simp only [step_of_input hinput, if_pos hinput]
    refine ⟨htaken, fun more => ?_⟩
    rw [show Console.readLine (t.fed more) = _ from hread more]
    rfl
  · rw [if_neg hinput]
    cases hfetch : m.fetch p with
    | error e =>
      simp only [step, hfetch]
      exact ⟨.none, fun more => trivial⟩
    | ok op =>
      by_cases hhalt : op = .halt
      · subst hhalt
        simp only [step, hfetch]
        exact ⟨.none, fun more => trivial⟩
      · have hop : op ≠ .input := by
          rintro rfl
          exact hinput hfetch
        obtain ⟨hleft, hexec⟩ := exec_fed (p := p) hop hout m.count
        simp only [step_of_fetch hfetch hhalt, hexec]
        generalize exec p op m.count t = carried at hleft ⊢
        obtain ⟨r, m', t'⟩ := carried
        rw [show t.input = t'.input from hleft.symm]
        cases r with
        | error e => exact ⟨.none, fun more => rfl⟩
        | ok _ => exact ⟨.none, fun more => rfl⟩

/-- A step adds the glyph of its instruction, whatever the console, unless that is `halt` or there is
none. -/
theorem observe_glyphs {κ : Type} [Console κ] (p : Program) (m : Machine) (c : κ) (glyphs : List Char) :
    observe .glyphs p m c glyphs =
      match m.fetch p with
      | .error _ => glyphs
      | .ok op => if op = .halt then glyphs else op.glyph :: glyphs := by
  cases hfetch : m.fetch p with
  | error e => rw [observe, hfetch]
  | ok op =>
    by_cases hhalt : op = .halt
    · subst hhalt
      rw [observe, hfetch]
      rfl
    · rw [observe_of_fetch hfetch hhalt]
      dsimp only
      rw [if_neg hhalt]
      rcases exec p op m.count c with ⟨_ | _, m', c'⟩ <;> rfl

/-- The glyphs tell how many instructions were `input`. -/
theorem count_observe_glyphs {κ : Type} [Console κ] (p : Program) (m : Machine) (c : κ)
    (glyphs : List Char) :
    (observe .glyphs p m c glyphs).count ',' =
      glyphs.count ',' + if m.fetch p = .ok .input then 1 else 0 := by
  rw [observe_glyphs]
  cases m.fetch p with
  | error e => simp
  | ok op => cases op <;> simp [Opcode.glyph, Opcode.char?]

/-- Every line that steps from a state ask for has its newline. -/
def LinesEnded (p : Program) (s : Machine × Terminal) : Prop :=
  ∀ u, ReflTransGen (Continues (stepWith p)) s u → u.1.fetch p = .ok .input → 10 ∈ u.2.input

/-- The lines that are asked for later have their newlines. -/
theorem LinesEnded.next {s u : Machine × Terminal} (h : LinesEnded p s) (hstep : Continues (stepWith p) s u) :
    LinesEnded p u :=
  fun v hv => h v (.head hstep hv)

/-- Lines have their newlines if the first one has and those have that are asked for behind the step. -/
theorem LinesEnded.of_step {s : Machine × Terminal} (hline : s.1.fetch p = .ok .input → 10 ∈ s.2.input)
    (hnext : (stepWith p s).1 = .ok .running → LinesEnded p (stepWith p s).2) : LinesEnded p s := by
  intro u hu
  rcases ReflTransGen.cases_head hu with rfl | ⟨v, hv, hu⟩
  · exact hline
  · have hstep : stepWith p s = (.ok .running, v) := hv
    rw [hstep] at hnext
    exact hnext rfl u hu

/-- Observed steps take as many lines as the glyphs of `input` that they add, and with more input at the
end they end in the same way and leave what was added. -/
theorem iterate_fed {fuel : Nat} {m' : Machine} {t' : Terminal} {r : Except RuntimeError Unit}
    {glyphs glyphs' : List Char} (hout : t.output.Unlimited) (hended : LinesEnded p (m, t))
    (h : iterate (stepObservedWith .glyphs p) fuel (m, t, glyphs) = some (r, m', t', glyphs')) :
    (∃ n, glyphs'.count ',' = glyphs.count ',' + n ∧ LinesTaken n t.input t'.input) ∧
      ∀ more, iterate (stepObservedWith .glyphs p) fuel (m, t.fed more, glyphs) =
        some (r, m', t'.fed more, glyphs') := by
  induction fuel generalizing m t glyphs with
  | zero => contradiction
  | succ fuel ih =>
    obtain ⟨htaken, hfed⟩ := step_fed hout (hended (m, t) .refl)
    have hcount := count_observe_glyphs p m t glyphs
    have htold (more : List UInt8) :
        observe .glyphs p m (t.fed more) glyphs = observe .glyphs p m t glyphs := by
      rw [observe_glyphs, observe_glyphs]
    have hunlimited := console_of_step Terminal.preserves_unlimited p m hout
    have hnext (u : Machine × Terminal) := hended.next (u := u)
    simp only [iterate, stepObservedWith, stepObserved_eq, Continues, stepWith, hfed, htold] at h hnext ⊢
    generalize step p m t = stepped at h htaken hunlimited hnext ⊢
    generalize observe Observer.glyphs p m t glyphs = told at h hcount ⊢
    obtain ⟨result, m₁, t₁⟩ := stepped
    cases result with
    | error e =>
      obtain ⟨rfl, rfl, rfl, rfl⟩ : _ = r ∧ m₁ = m' ∧ t₁ = t' ∧ told = glyphs' := by simpa using h
      exact ⟨⟨_, hcount, htaken⟩, fun more => rfl⟩
    | ok progress =>
      cases progress with
      | halted =>
        obtain ⟨rfl, rfl, rfl, rfl⟩ : _ = r ∧ m₁ = m' ∧ t₁ = t' ∧ told = glyphs' := by simpa using h
        exact ⟨⟨_, hcount, htaken⟩, fun more => rfl⟩
      | running =>
        obtain ⟨⟨n, hn, hrest⟩, hagain⟩ := ih hunlimited (hnext _ rfl) h
        refine ⟨⟨_, ?_, htaken.trans hrest⟩, hagain⟩
        rw [hn, hcount, Nat.add_assoc]

/-- An observed run takes as many lines as the `input` instructions that it carries out, and with more
input at the end it ends in the same way and leaves what was added. -/
theorem runObserved_fed {fuel : Nat} {m' : Machine} {t' : Terminal} {r : Except RuntimeError Unit}
    {glyphs : List Char} (hout : t.output.Unlimited) (hended : LinesEnded p (m.rewind, t))
    (h : runObserved .glyphs fuel p m t [] = some (r, m', t', glyphs)) :
    LinesTaken (glyphs.count ',') t.input t'.input ∧
      ∀ more, runObserved .glyphs fuel p m (t.fed more) [] = some (r, m', t'.fed more, glyphs) := by
  by_cases hp : p.hasHeader = true
  · simp only [runObserved_of_hasHeader hp] at h ⊢
    obtain ⟨⟨stopped, m₁, t₁, told⟩, hiterate, heq⟩ := Option.map_eq_some_iff.mp h
    obtain ⟨⟨n, hn, htaken⟩, hfed⟩ := iterate_fed hout hended hiterate
    have hstep (s : Machine × Terminal × List Char) (hs : s.2.1.output.Unlimited) :
        (stepObservedWith .glyphs p s).2.2.1.output.Unlimited := by
      rw [stepObservedWith, stepObserved_eq]
      exact console_of_step Terminal.preserves_unlimited p s.1 hs
    have hunlimited : t₁.output.Unlimited := invariant_of_iterate hstep hiterate hout
    have hflush {t : Terminal} (hout : t.output.Unlimited) : Console.flush t = (.ok (), t) :=
      Terminal.flush_of_unlimited hout
    rw [hflush hunlimited] at heq
    obtain ⟨rfl, rfl, rfl, rfl⟩ : _ = r ∧ m₁ = m' ∧ t₁ = t' ∧ told = glyphs := by simpa using heq
    refine ⟨?_, fun more => ?_⟩
    · rw [hn, List.count_nil, Nat.zero_add]
      exact htaken
    · rw [hfed, Option.map_some, hflush (t := t₁.fed more) hunlimited]
  · simp only [runObserved, if_neg hp] at h ⊢
    obtain ⟨rfl, rfl, rfl, rfl⟩ : _ = r ∧ m = m' ∧ t = t' ∧ [] = glyphs := by simpa using h
    exact ⟨.none, fun more => rfl⟩

end Machine

namespace Session

variable {s : Session}

/-- Answers do not depend on the input. -/
theorem answer_fed (s : Session) (pieces : List String) (more : List UInt8) :
    (s.fed more).answer pieces = ((s.answer pieces).1, (s.answer pieces).2.fed more) := by
  rw [answer_eq, answer_eq]
  rfl

/-- What follows a run does not depend on the input. -/
theorem conclude_fed (s : Session) (more : List UInt8) :
    (s.fed more).conclude = (s.conclude.1, s.conclude.2.fed more) := by
  rw [conclude_eq, conclude_eq, answer_fed, show (s.fed more).feedbackPieces = s.feedbackPieces from rfl]
  rcases s.answer s.feedbackPieces with ⟨_ | _, s₁⟩
  · rfl
  · change (_, if s₁.modes.continuous then _ else _) = (_, fed (if s₁.modes.continuous then _ else _) more)
    split <;> rfl

/-- What follows a run leaves the input alone. -/
theorem input_conclude (s : Session) : s.conclude.2.terminal.input = s.terminal.input := by
  rw [conclude_eq, answer_eq]
  cases (s.terminal.print s.feedbackPieces).1 with
  | error e => rfl
  | ok _ =>
    change Terminal.input (Session.terminal (if s.modes.continuous then _ else _)) = _
    split <;> rfl

/-- Outside debug mode a program is run as it is. -/
theorem launch_of_run {fuel : Nat} {p : Program} {r : Except RuntimeError Unit} {m' : Machine}
    {t' : Terminal} (hdebug : s.modes.debug = false)
    (hrun : s.machine.run fuel p s.terminal = some (r, m', t')) :
    s.launch fuel p = some (r, { s with machine := m', terminal := t' }) := by
  rw [launch_eq, hdebug, if_neg Bool.false_ne_true, hrun, Option.map_some]

/-- A source text whose run does not depend on input that is added at the end does not do so as a whole,
and takes from the input what the run takes. -/
theorem execute_fed {fuel : Nat} {source : String} {p : Program} {r : Except RuntimeError Unit}
    {m' : Machine} {t' : Terminal} (hdebug : s.modes.debug = false)
    (hcompile : compileChecked source = .ok p) (hrun : s.machine.run fuel p s.terminal = some (r, m', t'))
    (hfed : ∀ more, s.machine.run fuel p (s.terminal.fed more) = some (r, m', t'.fed more)) :
    ∃ result s', s.execute fuel source = some (result, s') ∧ s'.terminal.input = t'.input ∧
      ∀ more, (s.fed more).execute fuel source = some (result, s'.fed more) := by
  let s₁ : Session := { s with machine := m', terminal := t' }
  have hlaunch : s.launch fuel p = some (r, s₁) := launch_of_run hdebug hrun
  have hlaunchFed (more : List UInt8) : (s.fed more).launch fuel p = some (r, s₁.fed more) :=
    launch_of_run (s := s.fed more) hdebug (hfed more)
  simp only [execute, hcompile, hlaunch, hlaunchFed]
  cases r with
  | error e => exact ⟨_, s₁, rfl, rfl, fun more => rfl⟩
  | ok _ => exact ⟨_, _, rfl, input_conclude s₁, fun more => congrArg some (conclude_fed s₁ more)⟩

end Session

/-- A run whose lines all have their newlines depends on these lines only. Whatever stands behind them,
it ends with the same result, machine and output and leaves what was added behind what it left before,
and it takes one line for each `input` instruction that it carries out. So code that is given to a
session takes these lines and no other, and nothing that comes after them makes a difference to it. -/
theorem Machine.run_depends_on_lines {fuel : Nat} {p : Program} {m m' : Machine} {t t' : Terminal}
    {r : Except RuntimeError Unit} (hout : t.output.Unlimited) (hended : LinesEnded p (m.rewind, t))
    (h : run fuel p m t = some (r, m', t')) :
    (∀ more, run fuel p m (t.fed more) = some (r, m', t'.fed more)) ∧
    (∃ glyphs, runObserved .glyphs fuel p m t [] = some (r, m', t', glyphs) ∧
      LinesTaken (glyphs.count ',') t.input t'.input) ∧
    ∀ (s : Session) (files : FileTree) (line source : String), s.machine = m → s.terminal = t →
      s.modes.debug = false → Command.parse line = .code source → compileChecked source = .ok p →
      ∃ flow s', s.handle fuel files line = some (flow, s') ∧ s'.terminal.input = t'.input ∧
        ∀ more, (s.fed more).handle fuel files line = some (flow, s'.fed more) := by
  have hmap := (run_eq_runObserved .glyphs fuel p m t []).symm.trans h
  obtain ⟨⟨r', m₁, t₁, glyphs⟩, hobserved, heq⟩ := Option.map_eq_some_iff.mp hmap
  obtain ⟨rfl, rfl, rfl⟩ : r' = r ∧ m₁ = m' ∧ t₁ = t' := by simpa using heq
  obtain ⟨htaken, hobservedFed⟩ := runObserved_fed hout hended hobserved
  have hfed (more : List UInt8) : run fuel p m (t.fed more) = some (r', m₁, t₁.fed more) := by
    rw [run_eq_runObserved .glyphs fuel p m _ [], hobservedFed, Option.map_some]
  refine ⟨hfed, ⟨glyphs, hobserved, htaken⟩, ?_⟩
  rintro s files line source rfl rfl hdebug hparse hcompile
  obtain ⟨result, s', hexecute, hinput, hexecuteFed⟩ := s.execute_fed hdebug hcompile h hfed
  simp only [Session.handle_of_code hparse, hexecute, hexecuteFed]
  exact ⟨_, s', rfl, hinput, fun more => rfl⟩

/-- The line `A` and an empty line are read, and the line with `B` is left, whatever follows it. -/
theorem Machine.run_depends_on_lines_two :
    ∃ m' t',
      (new ⟨1, 1⟩).run 5 (compile ",.,") (⟨[65, 10, 10, 66], {}⟩ : Terminal) = some (.ok (), m', t') ∧
        t'.input = [66] ∧ t'.output.text = "A" ∧
        ∀ more, (new ⟨1, 1⟩).run 5 (compile ",.,") (⟨[65, 10, 10, 66] ++ more, {}⟩ : Terminal) =
          some (.ok (), m', t'.fed more) := by
  have hresult : ((new ⟨1, 1⟩).run 5 (compile ",.,") (⟨[65, 10, 10, 66], {}⟩ : Terminal)).map
      (fun result => (result.1, result.2.2.input, result.2.2.output.text)) = some (.ok (), [66], "A") := by
    decide +kernel
  obtain ⟨⟨r, m', t'⟩, hrun, heq⟩ := Option.map_eq_some_iff.mp hresult
  obtain ⟨rfl, hleft, htext⟩ : r = .ok () ∧ t'.input = [66] ∧ t'.output.text = "A" := by
    simpa only [Prod.mk.injEq] using heq
  have hended : LinesEnded (compile ",.,") ((new ⟨1, 1⟩).rewind, ⟨[65, 10, 10, 66], {}⟩) := by
    -- Four steps: the two that read, the one that writes between them, and `halt`.
    apply LinesEnded.of_step (by decide +kernel)
    intro _
    apply LinesEnded.of_step (by decide +kernel)
    intro _
    apply LinesEnded.of_step (by decide +kernel)
    intro _
    apply LinesEnded.of_step (by decide +kernel)
    intro hrunning
    exact absurd hrunning (by decide +kernel)
  obtain ⟨hfed, -⟩ := run_depends_on_lines ⟨rfl, rfl⟩ hended hrun
  exact ⟨m', t', hrun, hleft, htext, hfed⟩

end TapeMachine
