import TapeMachine.Proofs.ConsoleDemand
import TapeMachine.Proofs.TapeSizes

/-!
# Runs side by side

Two runs on machines that are alike need not share their consoles and listings. It is enough that these
cannot be told apart by what is asked of them, and stay so: then both runs, debugged or not, end in the
same way. Terminals cannot be told apart when they have the same input left and write to sinks that
cannot be told apart. Unlimited sinks cannot, whatever they hold: each gains the same text.
-/

namespace TapeMachine

/-- A relation between writers that writing and flushing cannot tell apart and that both respect. -/
structure Writer.Respected {ω : Type} [Writer ω] (same : ω → ω → Prop) : Prop where
  write : ∀ (piece : String) {out out' : ω}, same out out' →
    (write piece out).1 = (write piece out').1 ∧ same (write piece out).2 (write piece out').2
  flush : ∀ {out out' : ω}, same out out' →
    (flush out).1 = (flush out').1 ∧ same (flush out).2 (flush out').2

/-- A relation between consoles that flushing cannot tell apart either. -/
structure Console.Indistinct {κ : Type} [Console κ] (same : κ → κ → Prop) : Prop
    extends Console.Respected same where
  flush : ∀ {c d : κ}, same c d → (flush c).1 = (flush d).1 ∧ same (flush c).2 (flush d).2

/-- Pieces are written alike to writers that cannot be told apart. -/
theorem Writer.Respected.writeAll {ω : Type} [Writer ω] {same : ω → ω → Prop}
    (h : Writer.Respected same) (pieces : List String) {out out' : ω} (hout : same out out') :
    (writeAll pieces out).1 = (writeAll pieces out').1 ∧
      same (writeAll pieces out).2 (writeAll pieces out').2 := by
  induction pieces generalizing out out' with
  | nil => exact ⟨rfl, hout⟩
  | cons piece pieces ih =>
    have hpiece := h.write piece hout
    simp only [Writer.writeAll]
    generalize Writer.write piece out = written at hpiece ⊢
    generalize Writer.write piece out' = written' at hpiece ⊢
    obtain ⟨r, out⟩ := written
    obtain ⟨r', out'⟩ := written'
    obtain ⟨rfl, hnext⟩ : r = r' ∧ same out out' := hpiece
    cases r with
    | error e => exact ⟨rfl, hnext⟩
    | ok _ => exact ih hnext

/-- Listings that cannot be told apart stay so with every step that is listed. -/
theorem Writer.Respected.printer {ω : Type} [Writer ω] {same : ω → ω → Prop}
    (h : Writer.Respected same) (colors : Bool) : (Listing.printer colors).Respects same where
  onStep _ _ _ hout := (h.writeAll _ hout).2
  afterStep _ _ _ hout := (h.writeAll _ hout).2

/-- Sinks of which neither refuses what the other takes: they are the same, or both are unlimited. -/
def Sink.Peers (s t : Sink) : Prop := s = t ∨ (s.Unlimited ∧ t.Unlimited)

/-- Peers that have gained the same text since they were the given sinks. The first is still unlimited if
it was. -/
structure Sink.Parallel (s₀ t₀ s t : Sink) : Prop where
  peers : s.Peers t
  text : ∃ gained, s.text = s₀.text ++ gained ∧ t.text = t₀.text ++ gained
  unlimited : s₀.Unlimited → s.Unlimited

/-- Peers start out with nothing gained. -/
theorem Sink.Peers.parallel {s t : Sink} (h : s.Peers t) : Sink.Parallel s t s t :=
  ⟨h, ⟨"", by simp⟩, id⟩

/-- Peers gain the same text by the same pieces. -/
theorem Sink.respected_parallel (s₀ t₀ : Sink) : Writer.Respected (Sink.Parallel s₀ t₀) where
  write piece s t h := by
    change (s.write piece).1 = (t.write piece).1 ∧ Sink.Parallel s₀ t₀ (s.write piece).2 (t.write piece).2
    obtain ⟨gained, hs, ht⟩ := h.text
    have hpeers : (s.write piece).1 = (t.write piece).1 ∧ (s.write piece).2.Peers (t.write piece).2 := by
      rcases h.peers with rfl | ⟨hleft, hright⟩
      · exact ⟨rfl, .inl rfl⟩
      · rw [write_of_unlimited hleft, write_of_unlimited hright]
        exact ⟨rfl, .inr ⟨hleft, hright⟩⟩
    refine ⟨hpeers.1, hpeers.2, ⟨gained ++ (if (s.write piece).1.isOk then piece else ""), ?_⟩, fun h₀ => ?_⟩
    · rw [← String.append_assoc, ← String.append_assoc, ← hs, ← ht]
      exact ⟨s.text_write piece, by rw [hpeers.1, t.text_write]⟩
    · rw [write_of_unlimited (h.unlimited h₀)]
      exact h.unlimited h₀
  flush {s t} h := by
    change s.flush.1 = t.flush.1 ∧ Sink.Parallel s₀ t₀ s.flush.2 t.flush.2
    have hpeers : s.flush.1 = t.flush.1 ∧ s.flush.2.Peers t.flush.2 := by
      rcases h.peers with rfl | ⟨hleft, hright⟩
      · exact ⟨rfl, .inl rfl⟩
      · rw [flush_of_unlimited hleft, flush_of_unlimited hright]
        exact ⟨rfl, .inr ⟨hleft, hright⟩⟩
    refine ⟨hpeers.1, hpeers.2, by rw [text_flush, text_flush]; exact h.text, fun h₀ => ?_⟩
    rw [flush_of_unlimited (h.unlimited h₀)]
    exact h.unlimited h₀

namespace Terminal

/-- Terminals with the same input left, over sinks that cannot be told apart. -/
structure Parallel (same : Sink → Sink → Prop) (t u : Terminal) : Prop where
  input : t.input = u.input
  output : same t.output u.output

variable {same : Sink → Sink → Prop} {t u : Terminal}

/-- Pieces are printed alike on terminals that cannot be told apart. -/
theorem Parallel.print (h : Parallel same t u) (hsame : Writer.Respected same) (pieces : List String) :
    (t.print pieces).1 = (u.print pieces).1 ∧ Parallel same (t.print pieces).2 (u.print pieces).2 := by
  obtain ⟨hresult, hout⟩ := hsame.writeAll pieces h.output
  exact ⟨hresult, h.input, hout⟩

/-- Reading, writing and flushing cannot tell such terminals apart. -/
theorem indistinct_parallel (hsame : Writer.Respected same) : Console.Indistinct (Parallel same) where
  readLine {t u} h := by
    obtain ⟨hresult, hout⟩ := hsame.flush h.output
    change t.readLine.1 = u.readLine.1 ∧ Parallel same t.readLine.2 u.readLine.2
    rw [readLine, readLine, ← h.input]
    rw [show Writer.flush t.output = t.output.flush from rfl,
      show Writer.flush u.output = u.output.flush from rfl] at hresult hout
    generalize t.output.flush = flushed at hresult hout ⊢
    generalize u.output.flush = flushed' at hresult hout ⊢
    obtain ⟨r, out⟩ := flushed
    obtain ⟨r', out'⟩ := flushed'
    obtain rfl : r = r' := hresult
    cases r with
    | error e => exact ⟨rfl, rfl, hout⟩
    | ok _ =>
      cases t.input with
      | nil => exact ⟨rfl, rfl, hout⟩
      | cons b bs =>
        dsimp only
        split
        · exact ⟨rfl, rfl, hout⟩
        · exact ⟨rfl, rfl, hout⟩
  writeChar char t u h := by
    obtain ⟨hresult, hout⟩ := hsame.write char.toString h.output
    exact ⟨hresult, h.input, hout⟩
  flush {t u} h := by
    obtain ⟨hresult, hout⟩ := hsame.flush h.output
    exact ⟨hresult, h.input, hout⟩

end Terminal

namespace Machine

variable {κ : Type} [Console κ] {same : κ → κ → Prop} {m n : Machine} {c d : κ}

/-- Machines that are alike have the same cell under the pointer. -/
theorem Alike.currentCell (h : Alike m n) : m.currentCell = n.currentCell := by
  rw [Machine.currentCell, Machine.currentCell, h.pointer, h.tape.cells]

/-- A run has the same end next to consoles that cannot be told apart. -/
theorem Alike.run_beside (h : Alike m n) (hconsole : same c d) (hsame : Console.Indistinct same)
    (fuel : Nat) (p : Program) :
    Option.Rel (SameEnd same) (Machine.run fuel p m c) (Machine.run fuel p n d) := by
  by_cases hp : p.hasHeader = true
  · have hstep (a b : Machine × κ) (hab : Alike a.1 b.1 ∧ same a.2 b.2) :
        (stepWith p a).1 = (stepWith p b).1 ∧
          Alike (stepWith p a).2.1 (stepWith p b).2.1 ∧ same (stepWith p a).2.2 (stepWith p b).2.2 := by
      have hend := hab.1.step_beside hab.2 hsame.toRespected p
      exact ⟨hend.result, hend.machine, hend.console⟩
    have hlock := iterate_lockstep hstep fuel (s := (m.rewind, c)) (t := (n.rewind, d))
      ⟨h.rewind, hconsole⟩
    rw [run_of_hasHeader hp, run_of_hasHeader hp]
    apply rel_map hlock
    intro a b hab
    obtain ⟨hresult, hmachine, hafter⟩ := hab
    obtain ⟨hflush, hflushed⟩ := hsame.flush hafter
    exact ⟨by rw [hresult, hflush], hmachine, hflushed⟩
  · rw [Machine.run, Machine.run, if_neg hp, if_neg hp]
    exact .some ⟨rfl, h, hconsole⟩

end Machine

namespace Debugger

variable {κ ω : Type} [Console κ] [Writer ω] {same : κ → κ → Prop} {listed : ω → ω → Prop}
  {p : Program} {d e : Debugger κ ω}

/-- Debuggers that cannot be told apart. -/
structure Parallel (same : κ → κ → Prop) (listed : ω → ω → Prop) (d e : Debugger κ ω) : Prop where
  pausing : d.pausing = e.pausing
  machine : d.machine.Alike e.machine
  console : same d.console e.console
  listing : listed d.listing e.listing

/-- Pauses end alike. -/
theorem Parallel.pause (h : Parallel same listed d e) (hsame : Console.Indistinct same)
    (hlisted : Writer.Respected listed) (colors : Bool) :
    (d.pause colors).1 = (e.pause colors).1 ∧ Parallel same listed (d.pause colors).2 (e.pause colors).2 := by
  have hprompt : Listing.prompt colors e.machine = Listing.prompt colors d.machine := by
    rw [Listing.prompt, Listing.prompt, h.machine.steps]
  have hwrite := hlisted.writeAll (Listing.prompt colors d.machine) h.listing
  rw [Debugger.pause, Debugger.pause, hprompt]
  generalize Writer.writeAll (Listing.prompt colors d.machine) d.listing = written at hwrite ⊢
  generalize Writer.writeAll (Listing.prompt colors d.machine) e.listing = written' at hwrite ⊢
  obtain ⟨r, out⟩ := written
  obtain ⟨r', out'⟩ := written'
  obtain ⟨rfl, hout⟩ : r = r' ∧ listed out out' := hwrite
  cases r with
  | error cause => exact ⟨rfl, h.pausing, h.machine, h.console, hout⟩
  | ok _ =>
    have hflush := hlisted.flush hout
    dsimp only
    generalize Writer.flush out = flushed at hflush ⊢
    generalize Writer.flush out' = flushed' at hflush ⊢
    obtain ⟨r, out⟩ := flushed
    obtain ⟨r', out'⟩ := flushed'
    obtain ⟨rfl, hout⟩ : r = r' ∧ listed out out' := hflush
    cases r with
    | error cause => exact ⟨rfl, h.pausing, h.machine, h.console, hout⟩
    | ok _ =>
      have hread := hsame.readLine h.console
      dsimp only
      generalize Console.readLine d.console = read at hread ⊢
      generalize Console.readLine e.console = read' at hread ⊢
      obtain ⟨r, c⟩ := read
      obtain ⟨r', c'⟩ := read'
      obtain ⟨rfl, hafter⟩ : r = r' ∧ same c c' := hread
      cases r with
      | error cause => exact ⟨rfl, h.pausing, h.machine, hafter, hout⟩
      | ok line => exact ⟨rfl, rfl, h.machine, hafter, hout⟩

/-- Instructions are carried out alike. -/
theorem Parallel.advance (h : Parallel same listed d e) (hsame : Console.Indistinct same)
    (hlisted : Writer.Respected listed) (colors : Bool) (p : Program) :
    (d.advance colors p).1 = (e.advance colors p).1 ∧
      Parallel same listed (d.advance colors p).2 (e.advance colors p).2 := by
  have hend := h.machine.step_beside h.console hsame.toRespected p
  have hlisting := h.machine.observe_beside h.console hsame.toRespected h.listing (hlisted.printer colors) p
  rw [advance_eq, advance_eq]
  exact ⟨hend.result, h.pausing, hend.machine, hend.console, hlisting⟩

/-- Debugged steps end alike. -/
theorem Parallel.step (h : Parallel same listed d e) (hsame : Console.Indistinct same)
    (hlisted : Writer.Respected listed) (colors : Bool) (p : Program) :
    (d.step colors p).1 = (e.step colors p).1 ∧
      Parallel same listed (d.step colors p).2 (e.step colors p).2 := by
  have hannounces : announces p e.machine = announces p d.machine := by
    rw [announces, announces, h.machine.fetch]
  rw [Debugger.step, Debugger.step, ← h.pausing, hannounces]
  split
  · have hpause := h.pause hsame hlisted colors
    generalize d.pause colors = paused at hpause ⊢
    generalize e.pause colors = paused' at hpause ⊢
    obtain ⟨r, d₁⟩ := paused
    obtain ⟨r', e₁⟩ := paused'
    obtain ⟨rfl, hafter⟩ : r = r' ∧ Parallel same listed d₁ e₁ := hpause
    cases r with
    | error cause => exact ⟨rfl, hafter⟩
    | ok _ => exact hafter.advance hsame hlisted colors p
  · exact h.advance hsame hlisted colors p

end Debugger

/-- The final states of machines that are alike are listed alike. -/
theorem Machine.Alike.summary {ω : Type} [Writer ω] {listed : ω → ω → Prop} {m n : Machine}
    (h : Alike m n) (hlisted : Writer.Respected listed) (colors : Bool) {out out' : ω}
    (hlisting : listed out out') :
    listed (Listing.summary colors m out) (Listing.summary colors n out') := by
  have hlines : Listing.summaryLines colors n = Listing.summaryLines colors m := by
    simp only [Listing.summaryLines, h.steps, h.pointer, h.tape.highest, h.currentCell, h.tape.window]
  rw [Listing.summary, Listing.summary, hlines]
  generalize Listing.summaryLines colors m = lines
  induction lines generalizing out out' with
  | nil => exact hlisting
  | cons line lines ih => exact ih (hlisted.writeAll line hlisting).2

/-- A debugged run has the same end next to consoles and listings that cannot be told apart. -/
theorem Machine.Alike.debug_beside {κ ω : Type} [Console κ] [Writer ω] {same : κ → κ → Prop}
    {listed : ω → ω → Prop} {m n : Machine} {c d : κ} {out out' : ω} (h : Alike m n)
    (hconsole : same c d) (hsame : Console.Indistinct same) (hlisting : listed out out')
    (hlisted : Writer.Respected listed) (colors pausing : Bool) (fuel : Nat) (p : Program) :
    Option.Rel (SameEnd fun a b => same a.1 b.1 ∧ listed a.2 b.2) (m.debug colors pausing fuel p c out)
      (n.debug colors pausing fuel p d out') := by
  by_cases hp : p.hasHeader = true
  · have hlock := iterate_lockstep
      (fun a b (hab : Debugger.Parallel same listed a b) => hab.step hsame hlisted colors p) fuel
      (s := ⟨pausing, m.rewind, c, out⟩) (t := ⟨pausing, n.rewind, d, out'⟩)
      ⟨rfl, h.rewind, hconsole, hlisting⟩
    rw [debug_of_hasHeader hp, debug_of_hasHeader hp]
    apply rel_map hlock
    intro a b hab
    obtain ⟨hresult, hafter⟩ := hab
    obtain ⟨hflush, hflushed⟩ := hsame.flush hafter.console
    exact ⟨by rw [hresult, hflush], hafter.machine, hflushed,
      hafter.machine.summary hlisted colors hafter.listing⟩
  · rw [debug, debug, if_neg hp, if_neg hp]
    exact .some ⟨rfl, h, hconsole, hlisting⟩

end TapeMachine
