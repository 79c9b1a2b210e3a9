import TapeMachine.Proofs.LineReading
import TapeMachine.Source.Compile

/-!
# Pauses

The pauses of a debugged run and the instructions of the program take their lines from one input. A
pause takes one line, right before an instruction that is carried out, and pauses end with the input.
What an instruction takes depends on its own line only, so without the lines of the pauses a plain run
takes the same lines and ends in the same way.
-/

namespace TapeMachine

open Relation (ReflTransGen)

/-- What was taken from the input of a terminal. -/
def Terminal.gone (before after : Terminal) : List UInt8 :=
  before.input.take (before.input.length - after.input.length)

/-- What stands before the input that is left was taken. -/
theorem Terminal.gone_eq {before after : Terminal} {taken : List UInt8}
    (h : before.input = taken ++ after.input) : before.gone after = taken := by
  rw [gone, h, List.length_append, Nat.add_sub_cancel, List.take_left]

/-- A step takes a line or nothing from the input, and with other input behind that it ends in the
same way and leaves that input, unless it has come to the end of the input. -/
theorem Machine.step_of_taken {p : Program} {m m' : Machine} {input rest : List UInt8}
    {output output' : Sink} {r : Except RuntimeError Progress} (hout : output.Unlimited)
    (h : step p m (⟨input, output⟩ : Terminal) = (r, m', ⟨rest, output'⟩)) :
    ∃ taken, input = taken ++ rest ∧
      ∀ more, (rest = [] → more = []) →
        step p m (⟨taken ++ more, output⟩ : Terminal) = (r, m', ⟨more, output'⟩) := by
  cases demand_of_step p m with
  | nothing r₁ m₁ hstep =>
    rw [hstep] at h
    obtain ⟨rfl, rfl, ⟨⟩⟩ : r₁ = r ∧ m₁ = m' ∧ _ := by simpa only [Prod.mk.injEq] using h
    exact ⟨[], rfl, fun more _ => hstep _⟩
  | char char reply hstep =>
    have hwrite (input : List UInt8) : Console.writeChar char (⟨input, output⟩ : Terminal) =
        (.ok (), ⟨input, { output with text := output.text ++ char.toString }⟩) :=
      Terminal.writeChar_of_unlimited hout char
    rw [hstep, hwrite] at h
    obtain ⟨rfl, rfl, ⟨⟩⟩ : _ = r ∧ _ = m' ∧ _ := by simpa only [Prod.mk.injEq] using h
    exact ⟨[], rfl, fun more _ => by rw [hstep, List.nil_append, hwrite]⟩
  | line reply hstep =>
    by_cases hinput : input = []
    · subst hinput
      have hread : Console.readLine (⟨[], output⟩ : Terminal) = (.ok none, ⟨[], output⟩) :=
        Terminal.readLine_of_nil hout rfl
      rw [hstep, hread] at h
      obtain ⟨rfl, rfl, ⟨⟩⟩ : _ = r ∧ _ = m' ∧ _ := by simpa only [Prod.mk.injEq] using h
      exact ⟨[], rfl, fun more hmore => by rw [hmore rfl, List.append_nil, hstep, hread]⟩
    · obtain ⟨line, after, hline⟩ := FirstLine.exists_of_ne_nil hinput
      have hread {input after : List UInt8} (hline : FirstLine input line after) :
          Console.readLine (⟨input, output⟩ : Terminal) = (lineText line, ⟨after, output⟩) :=
        Terminal.readLine_of_firstLine hout hline
      rw [hstep, hread hline] at h
      obtain ⟨rfl, rfl, ⟨⟩⟩ : _ = r ∧ _ = m' ∧ _ := by simpa only [Prod.mk.injEq] using h
      refine ⟨line, hline.append_eq.symm, fun more hmore => ?_⟩
      rw [hstep, hread (hline.before hmore)]

namespace Debugger

variable {ω : Type} [Writer ω] {accepting : ω → Prop} {colors : Bool} {p : Program}
  {d d₁ : Debugger Terminal ω} {line : List UInt8}

/-- Wait if a pause is due. -/
def await (colors : Bool) (p : Program) (d : Debugger Terminal ω) :
    Except IoError Unit × Debugger Terminal ω :=
  if d.pausing && announces p d.machine then d.pause colors else (.ok (), d)

/-- A debugged step waits and carries out one instruction. -/
theorem step_of_await (h : d.await colors p = (.ok (), d₁)) : d.step colors p = d₁.advance colors p := by
  rw [await] at h
  rw [step]
  split at h
  · next hdue => rw [if_pos hdue, h]
  · next hdue =>
    obtain ⟨-, rfl⟩ := Prod.mk.inj h
    rw [if_neg hdue]

/-- A pause announces every instruction but `halt`. -/
theorem announces_iff {m : Machine} :
    announces p m = true ↔ ∃ op, m.fetch p = .ok op ∧ op ≠ .halt := by
  rw [announces]
  cases m.fetch p <;> simp

/-- How a debugger waits, which line it takes for that, and the state that it waits in. A pause is due
while pauses go on and before an instruction that is carried out: not before `halt`, and not where
nothing can be fetched. -/
inductive Waits (p : Program) (d : Debugger Terminal ω) : List UInt8 → Debugger Terminal ω → Prop where
  | line {op : Opcode} {line rest : List UInt8} {listing : ω} (hpausing : d.pausing = true)
      (hfetch : d.machine.fetch p = .ok op) (hop : op ≠ .halt)
      (hline : FirstLine d.console.input line rest) :
      Waits p d line { d with console.input := rest, listing }
  /-- The input is used up, and there are no pauses from now on. -/
  | exhausted {op : Opcode} {listing : ω} (hpausing : d.pausing = true)
      (hfetch : d.machine.fetch p = .ok op) (hop : op ≠ .halt) (hinput : d.console.input = []) :
      Waits p d [] { d with pausing := false, listing }
  | undue (h : d.pausing = true → ∀ op, d.machine.fetch p = .ok op → op = .halt) : Waits p d [] d

omit [Writer ω] in
/-- Waiting takes the line from the input and leaves the machine and the output alone. -/
theorem Waits.frame (h : Waits p d line d₁) :
    d₁.machine = d.machine ∧ d.console.input = line ++ d₁.console.input ∧
      d₁.console.output = d.console.output := by
  cases h with
  | line _ _ _ hline => exact ⟨rfl, hline.append_eq.symm, rfl⟩
  | exhausted => exact ⟨rfl, rfl, rfl⟩
  | undue => exact ⟨rfl, rfl, rfl⟩

/-- A debugger that nothing can stop from waiting: it reads a text, writes to an unlimited sink and
lists to a writer that refuses nothing. -/
structure Ready (accepting : ω → Prop) (d : Debugger Terminal ω) : Prop where
  output : d.console.output.Unlimited
  input : ∃ text, d.console.input = Text.toBytes text
  listing : accepting d.listing

/-- With a listing that refuses nothing, a pause succeeds when a line or the end of the input is
read. -/
theorem pause_of_accepting (haccepting : Writer.Accepting accepting) (h : accepting d.listing)
    (colors : Bool) {text? : Option String} {console : Terminal}
    (hread : d.console.readLine = (.ok text?, console)) :
    ∃ listing, accepting listing ∧
      d.pause colors = (.ok (), { d with pausing := text?.isSome, console, listing }) := by
  obtain ⟨hprompt, hprompted⟩ := haccepting.writeAll (Listing.prompt colors d.machine) h
  rw [pause]
  generalize Writer.writeAll (Listing.prompt colors d.machine) d.listing = prompted at hprompt hprompted ⊢
  obtain ⟨written, listing⟩ := prompted
  obtain rfl : written = .ok () := hprompt
  obtain ⟨hflush, hflushed⟩ := haccepting.flush hprompted
  dsimp only
  generalize Writer.flush listing = flushed at hflush hflushed ⊢
  obtain ⟨written, listing⟩ := flushed
  obtain rfl : written = .ok () := hflush
  refine ⟨listing, hflushed, ?_⟩
  dsimp only
  rw [show Console.readLine d.console = _ from hread]

/-- A debugger that nothing can stop waits, one way or another. -/
theorem Ready.waits (h : Ready accepting d) (haccepting : Writer.Accepting accepting) (colors : Bool)
    (p : Program) :
    ∃ line d₁, d.await colors p = (.ok (), d₁) ∧ Waits p d line d₁ ∧ accepting d₁.listing := by
  rw [await]
  split
  · next hdue =>
    obtain ⟨hpausing, hannounced⟩ := Bool.and_eq_true_iff.mp hdue
    obtain ⟨op, hfetch, hop⟩ := announces_iff.mp hannounced
    by_cases hinput : d.console.input = []
    · have hread := Terminal.readLine_of_nil h.output hinput
      obtain ⟨listing, hlisting, hpause⟩ := pause_of_accepting haccepting h.listing colors hread
      exact ⟨[], _, hpause, .exhausted hpausing hfetch hop hinput, hlisting⟩
    · obtain ⟨line, rest, hline⟩ := FirstLine.exists_of_ne_nil hinput
      obtain ⟨text, htext⟩ := h.input
      obtain ⟨first, hfirst⟩ := hline.exists_lineText htext
      have hread := Terminal.readLine_of_firstLine h.output hline
      rw [hfirst] at hread
      obtain ⟨listing, hlisting, hpause⟩ := pause_of_accepting haccepting h.listing colors hread
      refine ⟨line, { d with console.input := rest, listing }, ?_,
        .line hpausing hfetch hop hline, hlisting⟩
      rw [hpause, hpausing]
      rfl
  · next hdue =>
    refine ⟨[], d, rfl, .undue fun hpausing op hfetch => ?_, h.listing⟩
    by_contra hop
    exact hdue (Bool.and_eq_true_iff.mpr ⟨hpausing, announces_iff.mpr ⟨op, hfetch, hop⟩⟩)

/-- A listing that refuses nothing goes on so. -/
theorem accepting_observe (haccepting : Writer.Accepting accepting) (colors : Bool) (p : Program)
    (m : Machine) (t : Terminal) {out : ω} (h : accepting out) :
    accepting (Machine.observe (Listing.printer colors) p m t out) := by
  have hput (pieces : List String) {out : ω} (h : accepting out) : accepting (Listing.put pieces out) :=
    (haccepting.writeAll pieces h).2
  rw [Machine.observe]
  split
  · exact h
  · exact h
  · split
    · exact hput _ h
    · exact hput _ (hput _ h)

/-- Nothing can stop a debugger after a step if nothing could before. -/
theorem Ready.step (h : Ready accepting d) (haccepting : Writer.Accepting accepting) (colors : Bool)
    (p : Program) : Ready accepting (d.step colors p).2 := by
  obtain ⟨houtput, hinput⟩ := console_of_step Terminal.preserves_text colors p d ⟨h.output, h.input⟩
  obtain ⟨line, d₁, hawait, -, hlisting⟩ := h.waits haccepting colors p
  refine ⟨houtput, hinput, ?_⟩
  rw [step_of_await hawait, advance_eq]
  exact accepting_observe haccepting colors p d₁.machine d₁.console hlisting

/-- What a debugged step takes from the input: the line for waiting, and what the instruction takes. -/
def takes (colors : Bool) (p : Program) (d : Debugger Terminal ω) : List UInt8 × List UInt8 :=
  let waited := (d.await colors p).2
  (d.console.gone waited.console, waited.console.gone (d.step colors p).2.console)

/-- What the steps of a debugged run take from the input. -/
def taken (colors : Bool) (p : Program) :
    (fuel : Nat) → Debugger Terminal ω → List (List UInt8 × List UInt8)
  | 0, _ => []
  | fuel + 1, d =>
    d.takes colors p ::
      match d.step colors p with
      | (.ok .running, d) => taken colors p fuel d
      | _ => []

/-- What a step takes comes first in the input, and without the line for waiting a plain step ends in
the same way. -/
theorem step_of_ready (haccepting : Writer.Accepting accepting) (h : Ready accepting d) (colors : Bool)
    (p : Program) :
    d.console.input = (d.takes colors p).1 ++ (d.takes colors p).2 ++ (d.step colors p).2.console.input ∧
      ∀ more, ((d.step colors p).2.console.input = [] → more = []) →
        Machine.step p d.machine (⟨(d.takes colors p).2 ++ more, d.console.output⟩ : Terminal) =
          ((d.step colors p).1, (d.step colors p).2.machine,
            ⟨more, (d.step colors p).2.console.output⟩) := by
  obtain ⟨line, d₁, hawait, hwaits, -⟩ := h.waits haccepting colors p
  obtain ⟨hmachine, hline, houtput⟩ := hwaits.frame
  have hunlimited : d₁.console.output.Unlimited := houtput ▸ h.output
  rcases hmove : Machine.step p d₁.machine d₁.console with ⟨r, m', ⟨rest, output'⟩⟩
  obtain ⟨bytes, hbytes, hplain⟩ := Machine.step_of_taken hunlimited hmove
  have hstep := step_of_await hawait
  rw [advance_eq, hmove] at hstep
  have htakes : d.takes colors p = (line, bytes) := by
    rw [takes, hawait, hstep]
    exact Prod.ext (Terminal.gone_eq hline) (Terminal.gone_eq hbytes)
  rw [htakes, hstep]
  rw [hmachine, houtput] at hplain
  exact ⟨by rw [hline, hbytes, List.append_assoc], hplain⟩

/-- What waits and instructions took and what is left are the input, and without what the waits took a
plain run ends as the debugged run does. -/
theorem iterate_of_ready (haccepting : Writer.Accepting accepting) {fuel : Nat}
    {r : Except RuntimeError Unit} {d' : Debugger Terminal ω}
    (hiterate : iterate (step colors p) fuel d = some (r, d')) (h : Ready accepting d) :
    d.console.input =
        (taken colors p fuel d).flatMap (fun piece => piece.1 ++ piece.2) ++ d'.console.input ∧
      iterate (Machine.stepWith p) fuel
          (d.machine, ⟨(taken colors p fuel d).flatMap Prod.snd ++ d'.console.input, d.console.output⟩) =
        some (r, d'.machine, d'.console) := by
  induction fuel generalizing d with
  | zero => contradiction
  | succ fuel ih =>
    obtain ⟨hinput, hplain⟩ := step_of_ready haccepting h colors p
    have hnext := h.step haccepting colors p
    rw [iterate] at hiterate
    rw [taken, iterate]
    generalize d.step colors p = stepped at hinput hplain hnext hiterate ⊢
    obtain ⟨stopped, d₂⟩ := stepped
    -- A step that stops leaves the input that is left at the end.
    have hstop (hend : d₂ = d') : Machine.step p d.machine
        (⟨(d.takes colors p).2 ++ d'.console.input, d.console.output⟩ : Terminal) =
          (stopped, d'.machine, d'.console) := by
      subst hend
      exact hplain _ id
    cases stopped with
    | error e =>
      obtain ⟨rfl, rfl⟩ := Prod.mk.inj (Option.some.inj hiterate)
      simp [hinput, Machine.stepWith, hstop rfl]
    | ok progress =>
      cases progress with
      | halted =>
        obtain ⟨rfl, rfl⟩ := Prod.mk.inj (Option.some.inj hiterate)
        simp [hinput, Machine.stepWith, hstop rfl]
      | running =>
        obtain ⟨hrest, hrun⟩ := ih hiterate hnext
        -- Where the input of the debugged run has ended, the rest of the plain run has no input either.
        have hends (hnil : d₂.console.input = []) :
            (taken colors p fuel d₂).flatMap Prod.snd ++ d'.console.input = [] := by
          rw [hnil] at hrest
          obtain ⟨hpieces, hleft⟩ := List.append_eq_nil_iff.mp hrest.symm
          rw [List.flatMap_eq_nil_iff] at hpieces
          rw [hleft, List.append_nil, List.flatMap_eq_nil_iff]
          intro piece hpiece
          exact (List.append_eq_nil_iff.mp (hpieces piece hpiece)).2
        have hfirst := hplain _ hends
        rw [← List.append_assoc] at hfirst
        dsimp only
        rw [List.flatMap_cons, List.flatMap_cons, Machine.stepWith, hfirst]
        exact ⟨by rw [hinput, hrest]; simp only [List.append_assoc], hrun⟩

/-- Nothing can stop a debugger in any state that it reaches if nothing could at first. -/
theorem Ready.reached (h : Ready accepting d) (haccepting : Writer.Accepting accepting)
    (hreach : ReflTransGen (Continues (Debugger.step colors p)) d d₁) : Ready accepting d₁ := by
  induction hreach with
  | refl => exact h
  | tail _ hstep ih =>
    have hnext := ih.step haccepting colors p
    rwa [show Debugger.step colors p _ = _ from hstep] at hnext

end Debugger

/-- A debugged run with pauses takes the lines of its pauses from the input right before the
instructions that it carries out, until the input is used up, and without these lines a plain run ends
as the debugged run does: with the same result, machine, output and unread input. -/
theorem Machine.debug_as_run {ω : Type} [Writer ω] {accepting : ω → Prop}
    (haccepting : Writer.Accepting accepting) {colors : Bool} {fuel : Nat} {p : Program} {m m' : Machine}
    {t t' : Terminal} {out out' : ω} {r : Except RuntimeError Unit} (hp : p.hasHeader = true)
    (htext : ∃ text, t.input = Text.toBytes text) (houtput : t.output.Unlimited) (hout : accepting out)
    (h : m.debug colors true fuel p t out = some (r, m', t', out')) :
    let start : Debugger Terminal ω := ⟨true, m.rewind, t, out⟩
    let taken := start.taken colors p fuel
    (∀ d, ReflTransGen (Continues (Debugger.step colors p)) start d →
      ∃ waited, Debugger.Waits p d (d.takes colors p).1 waited ∧
        d.step colors p = waited.advance colors p) ∧
    t.input = taken.flatMap (fun piece => piece.1 ++ piece.2) ++ t'.input ∧
    m.run fuel p { t with input := taken.flatMap Prod.snd ++ t'.input } = some (r, m', t') := by
  intro start taken
  have hready : start.Ready accepting := ⟨houtput, htext, hout⟩
  refine ⟨fun d hreach => ?_, ?_⟩
  · obtain ⟨line, waited, hawait, hwaits, -⟩ :=
      (hready.reached haccepting hreach).waits haccepting colors p
    have hline : (d.takes colors p).1 = line := by
      rw [Debugger.takes, hawait]
      exact Terminal.gone_eq hwaits.frame.2.1
    exact ⟨waited, hline ▸ hwaits, Debugger.step_of_await hawait⟩
  · rw [debug_of_hasHeader hp] at h
    obtain ⟨⟨stopped, d⟩, hiterate, heq⟩ := Option.map_eq_some_iff.mp h
    have hstep (d : Debugger Terminal ω) (hd : d.console.output.Unlimited) :
        (d.step colors p).2.console.output.Unlimited :=
      Debugger.console_of_step Terminal.preserves_unlimited colors p d hd
    have hunlimited := invariant_of_iterate hstep hiterate houtput
    have hflush : Console.flush d.console = (.ok (), d.console) := Terminal.flush_of_unlimited hunlimited
    rw [hflush, settle_ok] at heq
    obtain ⟨rfl, rfl, rfl, -⟩ : stopped = r ∧ d.machine = m' ∧ d.console = t' ∧ _ := by
      simpa only [Prod.mk.injEq] using heq
    obtain ⟨hinput, hrun⟩ := Debugger.iterate_of_ready haccepting hiterate hready
    refine ⟨hinput, ?_⟩
    rw [run_of_hasHeader hp, show iterate (stepWith p) fuel _ = _ from hrun, Option.map_some, hflush,
      settle_ok]

/-- The line `A` is read by the program, the other two are taken by the pauses before its first two
instructions, and the pause before the third one finds the input used up. -/
theorem Machine.debug_as_run_shared :
    ∃ m' t' out',
      (new ⟨1, 1⟩).debug false true 6 (compile ",.+,") ({ input := [103, 111, 10, 65, 10, 10] } : Terminal)
          ({} : Sink) = some (.ok (), m', t', out') ∧
        t'.output.text = "A" ∧
        (new ⟨1, 1⟩).run 6 (compile ",.+,") ({ input := [65, 10] } : Terminal) = some (.ok (), m', t') := by
  have hresult : ((new ⟨1, 1⟩).debug false true 6 (compile ",.+,")
      ({ input := [103, 111, 10, 65, 10, 10] } : Terminal) ({} : Sink)).map
        (fun result => (result.1, result.2.2.1.input, result.2.2.1.output.text)) =
      some (.ok (), [], "A") := by
    decide +kernel
  obtain ⟨⟨r, m', t', out'⟩, hdebug, heq⟩ := Option.map_eq_some_iff.mp hresult
  obtain ⟨rfl, hleft, htext⟩ : r = .ok () ∧ t'.input = [] ∧ t'.output.text = "A" := by
    simpa only [Prod.mk.injEq] using heq
  have htaken : ((⟨true, (new ⟨1, 1⟩).rewind, { input := [103, 111, 10, 65, 10, 10] }, {}⟩ :
      Debugger Terminal Sink).taken false (compile ",.+,") 6).flatMap Prod.snd = [65, 10] := by
    decide +kernel
  have hheader : (compile ",.+,").hasHeader = true := Program.hasHeader_ofOpcodes _
  obtain ⟨-, -, hrun⟩ := debug_as_run Sink.accepting_unlimited hheader ⟨"go\nA\n\n", by decide⟩
    ⟨rfl, rfl⟩ ⟨rfl, rfl⟩ hdebug
  rw [htaken, hleft] at hrun
  exact ⟨m', t', out', hdebug, htext, hrun⟩

end TapeMachine
