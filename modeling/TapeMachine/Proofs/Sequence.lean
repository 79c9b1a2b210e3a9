import Mathlib.Algebra.BigOperators.Group.List.Basic
import TapeMachine.Proofs.InStep
import TapeMachine.Proofs.WellFormed

/-!
# Runs one after the other

Running source texts one after the other on one machine is running them as one text. In the program
of the whole text the code of a part stands further on, so positions are shifted: a machine in the
whole program stays in step with a machine in the part until the part halts, behind its code and
with no loop open, which is where the next part starts. A scan over a loop does not leave the part
that it started in.

The flushes between the parts are the one thing that is not done in a run of the whole text, so they
must not show. Which consoles count as the same is left open, and every part may fail.
-/

namespace TapeMachine

open Relation (ReflTransGen)

/-- The number of instructions in source texts. -/
def instructionCount (sources : List String) : Nat :=
  (sources.map fun source => (instructions source).length).sum

/-- The instructions of joined texts are the instructions of one text after the other. -/
theorem instructions_join (sources : List String) :
    instructions (String.join sources) = sources.flatMap instructions := by
  rw [instructions, String.toList_join, List.filterMap_flatMap]
  rfl

/-- The code of a proper program, which also stands `shift` positions further on in another one. -/
structure Program.Embeds (p q : Program) (w : List UInt8) (shift : Nat) : Prop where
  proper : p.Proper w
  header : q.hasHeader = true
  held : q.Holds (Program.entry + shift) w

/-- A program that holds, `position` instructions behind its start, the code of balanced texts one
after the other and a `halt`. -/
structure Program.HoldsTexts (q : Program) (position : Nat) (sources : List String) : Prop where
  header : q.hasHeader = true
  held : q.Holds (Program.entry + position)
    ((sources.flatMap instructions).map Opcode.byte ++ [Opcode.halt.byte])
  balanced : ∀ source ∈ sources, checkBalanced source = .ok ()

section Texts

variable {q : Program} {position : Nat} {source : String} {sources : List String}

/-- Joined texts compile to a program that holds them all. -/
theorem holdsTexts_compile (hsources : ∀ source ∈ sources, checkBalanced source = .ok ()) :
    (compile (String.join sources)).HoldsTexts 0 sources := by
  rw [compile_eq, instructions_join]
  exact ⟨Program.hasHeader_ofOpcodes _, Program.holds_ofOpcodes _, hsources⟩

/-- The code of the first text stands before the code of the others. -/
theorem Program.HoldsTexts.held_cons (h : q.HoldsTexts position (source :: sources)) :
    q.Holds (Program.entry + position) ((instructions source).map Opcode.byte) ∧
      q.Holds (Program.entry + position + ((instructions source).map Opcode.byte).length)
        ((sources.flatMap instructions).map Opcode.byte ++ [Opcode.halt.byte]) := by
  rw [← Program.holds_append, ← List.append_assoc, ← List.map_append, ← List.flatMap_cons]
  exact h.held

/-- The first of the texts is part of the program. -/
theorem Program.HoldsTexts.first (h : q.HoldsTexts position (source :: sources)) :
    (compile source).Embeds q ((instructions source).map Opcode.byte) position := by
  obtain ⟨hsource, -⟩ := List.forall_mem_cons.mp h.balanced
  refine ⟨?_, h.header, h.held_cons.1⟩
  rw [compile_eq]
  exact Program.proper_ofOpcodes (halt_not_mem_instructions source)
    ((checkBalanced_eq_ok_iff source).mp hsource)

/-- The other texts follow behind the first. -/
theorem Program.HoldsTexts.rest (h : q.HoldsTexts position (source :: sources)) :
    q.HoldsTexts (position + ((instructions source).map Opcode.byte).length) sources := by
  refine ⟨h.header, ?_, (List.forall_mem_cons.mp h.balanced).2⟩
  rw [← Nat.add_assoc]
  exact h.held_cons.2

end Texts

/-- Consoles of which each passes for the other, whose flushes succeed and cannot be noticed.

This is how it is read that flushes succeed: a flush answers without an error and keeps what has been
written and the input that is unread, so that the console it leaves passes for the one before. -/
structure Console.FlushesUnseen {κ : Type} [Console κ] (same : κ → κ → Prop) : Prop
    extends Console.Respected same where
  symm : ∀ {c d}, same c d → same d c
  flush : ∀ {c d}, same c d → (flush c).1 = .ok () ∧ same (flush c).2 d

/-- A terminal whose sink grants every flush passes for itself and for nothing else. -/
theorem Terminal.flushesUnseen :
    Console.FlushesUnseen fun t u : Terminal => t = u ∧ t.output.flushBudget = none := by
  have hflush {t : Terminal} (ht : t.output.flushBudget = none) : t.output.flush = (.ok (), t.output) := by
    rw [Sink.flush, ht]
  refine ⟨⟨fun {t u} h => ?_, fun char t u h => ?_⟩, fun h => ⟨h.1.symm, h.1 ▸ h.2⟩, fun {t u} h => ?_⟩
  · obtain ⟨rfl, ht⟩ := h
    refine ⟨rfl, rfl, ?_⟩
    change t.readLine.2.output.flushBudget = none
    rw [readLine, hflush ht]
    dsimp only
    split
    · exact ht
    · split <;> exact ht
  · obtain ⟨rfl, ht⟩ := h
    refine ⟨rfl, rfl, ?_⟩
    change (t.output.write char.toString).2.flushBudget = none
    unfold Sink.write
    split
    · exact ht
    · split
      · exact ht
      · split <;> exact ht
  · obtain ⟨rfl, ht⟩ := h
    change t.output.flush.1 = .ok () ∧ { t with output := t.output.flush.2 } = t ∧
      t.output.flush.2.flushBudget = none
    rw [hflush ht]
    exact ⟨rfl, rfl, ht⟩

namespace Machine

variable {κ : Type} [Console κ]

/-- Run source texts one after the other on one machine up to the first that fails, and count those
that succeed. -/
def runEach (fuel : Nat) :
    List String → Machine → κ → Option (Nat × Except RuntimeError Unit × Machine × κ)
  | [], m, c => some (0, .ok (), m, c)
  | source :: sources, m, c =>
    match run fuel (compile source) m c with
    | none => none
    | some (.error e, m, c) => some (0, .error e, m, c)
    | some (.ok (), m, c) => (runEach fuel sources m c).map fun (done, rest) => (done + 1, rest)

/-- Machines that differ in their place in a program only. -/
structure SameStore (m n : Machine) : Prop where
  tape : m.tape = n.tape
  pointer : m.pointer = n.pointer
  steps : m.steps = n.steps

/-- The second machine has what the first one keeps and stands at a position without open loops. -/
structure Meets (position : Nat) (m n : Machine) : Prop extends SameStore m n where
  ip : n.ip = Program.entry + position
  loopStack : n.loopStack = []

variable {p q : Program} {w : List UInt8} {shift : Nat} {m m' n : Machine} {c c' d : κ}
  {same : κ → κ → Prop}

/-- A machine that is met is in step with the rewound one. -/
theorem Meets.inStep (h : Meets shift m n) : InStep Eq shift m.rewind n :=
  ⟨h.tape, h.pointer.symm, h.ip, h.loopStack, h.steps.symm⟩

/-- In the code of a proper program a step that does not halt stands before its end. -/
theorem InCode.lt_of_not_halted (hp : p.Proper w) (h : InCode p w m)
    (hstep : (step p m c).1 ≠ .ok .halted) : m.ip < Program.entry + w.length := by
  obtain ⟨op, hfetch, hend⟩ := h.exists_fetch hp
  refine h.lt_of_fetch hp hfetch ?_
  intro hop
  subst hop
  rw [step_eq_halted_iff.mpr ⟨hfetch, rfl, rfl⟩] at hstep
  contradiction

/-- What is fetched in a part is fetched in the whole. -/
theorem fetch_of_embeds (h : p.Embeds q w shift) (hm : InCode p w m)
    (hlt : m.ip < Program.entry + w.length) (hip : n.ip = m.ip + shift) :
    n.fetch q = m.fetch p := by
  obtain ⟨u, b, v, rfl, hu, hb⟩ := h.proper.split hm.1.entry_le hlt
  obtain ⟨op, -, rfl⟩ := Program.exists_opcode_of_le (h.proper.known b (by simp))
  have hget : q.get? n.ip = some op.byte := by
    rw [hip, hu, Nat.add_right_comm]
    exact h.held.get?
  rw [fetch_eq_ok_iff.mpr ⟨h.proper.hasHeader, hb⟩, fetch_eq_ok_iff.mpr ⟨h.header, hget⟩]

/-- A loop of a part ends in the whole where it ends in the part. -/
theorem loopEnd?_of_embeds (h : p.Embeds q w shift) (hm : InCode p w m)
    (hlt : m.ip < Program.entry + w.length) (hget : p.get? m.ip = some Opcode.loopStart.byte) :
    q.loopEnd? (m.ip + shift) = (p.loopEnd? m.ip).map (· + shift) := by
  obtain ⟨u, b, v, rfl, hu, hb⟩ := h.proper.split hm.1.entry_le hlt
  obtain rfl : Opcode.loopStart.byte = b := by simpa [hget] using hb
  obtain ⟨body, b, rest, rfl, hbody, hclosing⟩ := h.proper.balanced.exists_closing rfl
  obtain rfl := bracketOfByte?_eq_closing.mp hclosing
  have hnohalt : Opcode.halt.byte ∉ body := by
    intro hmem
    exact h.proper.halt_not_mem (by simp [hmem])
  rw [hu, (Program.holds_append.mp h.proper.holds).1.loopEnd?_eq hbody hnohalt, Nat.add_right_comm,
    h.held.loopEnd?_eq hbody hnohalt, Option.map_some, Option.some.injEq]
  omega

/-- Until the part halts, a step is the same in the part and in the whole. -/
theorem agree_of_embeds (h : p.Embeds q w shift) (hconsoles : Console.Respected same)
    (hm : InCode p w m) (hin : InStep Eq shift m n) (hsame : same c d)
    (hstep : (step p m c).1 ≠ .ok .halted) :
    Agree Eq same shift (step p m c) (step q n d) := by
  have hlt := hm.lt_of_not_halted h.proper hstep
  refine hin.step hsame Tape.respected_eq hconsoles ?_ ?_
  · obtain ⟨op, hfetch, -⟩ := hm.exists_fetch h.proper
    rw [fetch_of_embeds h hm hlt hin.ip, hfetch]
    rfl
  · intro hfetch _
    exact loopEnd?_of_embeds h hm hlt (fetch_eq_ok_iff.mp hfetch).2

/-- Steps in the part are steps in the whole. -/
theorem reaches_of_embeds (h : p.Embeds q w shift) (hconsoles : Console.Respected same)
    (hm : InCode p w m) (hin : InStep Eq shift m n) (hsame : same c d) {t : Machine × κ}
    (hsteps : ReflTransGen (Continues (stepWith p)) (m, c) t) :
    InCode p w t.1 ∧ ∃ u, ReflTransGen (Continues (stepWith q)) (n, d) u ∧
      InStep Eq shift t.1 u.1 ∧ same t.2 u.2 := by
  induction hsteps with
  | refl => exact ⟨hm, (n, d), .refl, hin, hsame⟩
  | @tail t t' _ hstep ih =>
    obtain ⟨hcode, u, hreach, hin', hsame'⟩ := ih
    have hstep : step p t.1 t.2 = (.ok .running, t') := hstep
    have hagree := agree_of_embeds h hconsoles hcode hin' hsame' (by simp [hstep])
    rw [hstep] at hagree
    refine ⟨inCode_of_flow h.proper (flow_of_step hstep) hcode, (step q u.1 u.2).2, ?_,
      hagree.machine, hagree.console⟩
    exact hreach.tail (Prod.ext hagree.result rfl)

/-- Where the whole returns, so does the part. -/
theorem returns_of_embeds (h : p.Embeds q w shift) (hconsoles : Console.Respected same)
    (hm : InCode p w m) (hin : InStep Eq shift m n) (hsame : same c d) {fuel : Nat}
    {x : Except RuntimeError Unit × Machine × κ}
    (hwhole : iterate (stepWith q) fuel (n, d) = some x) :
    ∃ fuel' y, iterate (stepWith p) fuel' (m, c) = some y := by
  induction fuel generalizing m n c d with
  | zero => contradiction
  | succ fuel ih =>
    rcases continues_or_stops (stepWith p) (m, c) with ⟨t, ht⟩ | ⟨r, t, hstop⟩
    · have hstep : step p m c = (.ok .running, t) := ht
      have hagree := agree_of_embeds h hconsoles hm hin hsame (by simp [hstep])
      rw [hstep] at hagree
      have hcontinues : Continues (stepWith q) (n, d) (step q n d).2 := Prod.ext hagree.result rfl
      rw [iterate_of_continues hcontinues] at hwhole
      obtain ⟨fuel', y, hy⟩ :=
        ih (inCode_of_flow h.proper (flow_of_step hstep) hm) hagree.machine hagree.console hwhole
      exact ⟨fuel' + 1, y, by rwa [iterate_of_continues ht]⟩
    · exact ⟨1, (r, t), iterate_of_stops hstop 0⟩

/-- A run of the part is carried out in the whole: if it fails, so does the whole, and if it succeeds,
the whole goes on behind the part. -/
theorem run_of_embeds (h : p.Embeds q w shift) (hflush : Console.FlushesUnseen same)
    (hmeets : Meets shift m n) (hsame : same c d) {fuel : Nat} {r : Except RuntimeError Unit}
    (hrun : run fuel p m c = some (r, m', c')) :
    (∀ e, r = .error e → ∃ fuel' n' d',
      iterate (stepWith q) fuel' (n, d) = some (.error (e.shift shift), n', d') ∧ SameStore m' n' ∧
        same c' d') ∧
      (r = .ok () → ∃ n' d', ReflTransGen (Continues (stepWith q)) (n, d) (n', d') ∧
        Meets (shift + w.length) m' n' ∧ same c' d') := by
  obtain ⟨stopped, c₀, hiterate, hr, hc'⟩ := (run_eq_some_iff h.proper.hasHeader).mp ⟨fuel, hrun⟩
  obtain ⟨⟨m₁, c₁⟩, hsteps, hstop⟩ := iterate_eq_some_iff.mp hiterate
  obtain ⟨hcode, ⟨n₁, d₁⟩, hreach, hin₁, hsame₁⟩ :=
    reaches_of_embeds h hflush.toRespected (inCode_rewind p w m) hmeets.inStep hsame hsteps
  cases hstop with
  | halted hstep =>
    obtain ⟨hip, hstack⟩ := hcode.of_halted h.proper (congrArg Prod.fst hstep)
    obtain ⟨-, rfl, rfl⟩ := step_eq_halted_iff.mp hstep
    obtain ⟨hflushed, hafter⟩ := hflush.flush hsame₁
    rw [hflushed] at hr
    refine ⟨fun e he => by simp [hr, settle] at he, fun _ => ⟨n₁, d₁, hreach, ?_, hc' ▸ hafter⟩⟩
    refine ⟨⟨hin₁.tape, hin₁.pointer.symm, hin₁.steps.symm⟩, ?_, ?_⟩
    · rw [hin₁.ip, hip]
      omega
    · rw [hin₁.loopStack, hstack, List.map_nil]
  | @failed e _ hstep =>
    have hstep : step p m₁ c₁ = (.error e, m', c₀) := hstep
    have hagree := agree_of_embeds h hflush.toRespected hcode hin₁ hsame₁ (by simp [hstep])
    rw [hstep] at hagree
    obtain ⟨-, hafter⟩ := hflush.flush hagree.console
    obtain ⟨fuel', hfuel'⟩ := iterate_eq_some_iff.mpr
      ⟨(n₁, d₁), hreach, .failed (Prod.ext hagree.result rfl)⟩
    refine ⟨fun e' he' => ?_, fun hok => by simp [hr, settle] at hok⟩
    obtain rfl : e = e' := by simpa [hr, settle] using he'
    exact ⟨fuel', _, _, hfuel',
      ⟨hagree.machine.tape, hagree.machine.pointer.symm, hagree.machine.steps.symm⟩, hc' ▸ hafter⟩

/-- More fuel does not change how runs one after the other end. -/
theorem runEach_mono {fuel fuel' : Nat} (hle : fuel ≤ fuel') {sources : List String}
    {x : Nat × Except RuntimeError Unit × Machine × κ} (h : runEach fuel sources m c = some x) :
    runEach fuel' sources m c = some x := by
  induction sources generalizing m c x with
  | nil => exact h
  | cons source sources ih =>
    simp only [runEach] at h ⊢
    split at h
    · contradiction
    · next hrun =>
      rw [run_mono hle hrun]
      exact h
    · next hrun =>
      obtain ⟨y, hy, rfl⟩ := Option.map_eq_some_iff.mp h
      rw [run_mono hle hrun]
      dsimp only
      rw [ih hy, Option.map_some]

/-- What the texts come to one after the other, the steps in the whole come to as well. -/
theorem iterate_of_runEach (hflush : Console.FlushesUnseen same) {sources : List String}
    {position : Nat} (hq : q.HoldsTexts position sources) (hmeets : Meets position m n)
    (hsame : same c d) {fuel k : Nat} {r : Except RuntimeError Unit}
    (hrun : runEach fuel sources m c = some (k, r, m', c')) :
    ∃ fuel' n' d', iterate (stepWith q) fuel' (n, d) =
        some (shiftResult (position + instructionCount (sources.take k)) r, n', d') ∧
      SameStore m' n' ∧ same c' d' := by
  induction sources generalizing position m n c d k with
  | nil =>
    obtain ⟨rfl, rfl, rfl, rfl⟩ : 0 = k ∧ .ok () = r ∧ m = m' ∧ c = c' := by
      simpa [runEach] using hrun
    have hhalt : n.fetch q = .ok .halt := by
      refine fetch_eq_ok_iff.mpr ⟨hq.header, ?_⟩
      rw [hmeets.ip]
      exact (Program.holds_cons.mp hq.held).1
    have hstop : Stops (stepWith q) (n, d) (.ok ()) (n, d) :=
      .halted (step_eq_halted_iff.mpr ⟨hhalt, rfl, rfl⟩)
    exact ⟨1, n, d, iterate_of_stops hstop 0, hmeets.toSameStore, hsame⟩
  | cons source sources ih =>
    simp only [runEach] at hrun
    split at hrun
    · contradiction
    · next e m₁ c₁ hfirst =>
      obtain ⟨rfl, rfl, rfl, rfl⟩ : 0 = k ∧ .error e = r ∧ m₁ = m' ∧ c₁ = c' := by
        simpa using hrun
      exact (run_of_embeds hq.first hflush hmeets hsame hfirst).1 e rfl
    · next m₁ c₁ hfirst =>
      obtain ⟨⟨k', r', m₂, c₂⟩, hlater, heq⟩ := Option.map_eq_some_iff.mp hrun
      obtain ⟨rfl, rfl, rfl, rfl⟩ : k' + 1 = k ∧ r' = r ∧ m₂ = m' ∧ c₂ = c' := by simpa using heq
      obtain ⟨n₁, d₁, hreach, hmeets₁, hsame₁⟩ :=
        (run_of_embeds hq.first hflush hmeets hsame hfirst).2 rfl
      obtain ⟨fuel', n', d', hiterate, hstore, hsame'⟩ := ih hq.rest hmeets₁ hsame₁ hlater
      obtain ⟨fuel'', hwhole⟩ := (iterate_iff_of_reaches hreach).mpr ⟨fuel', hiterate⟩
      refine ⟨fuel'', n', d', ?_, hstore, hsame'⟩
      rw [hwhole, List.length_map, Nat.add_assoc]
      rfl

/-- Where the steps in the whole come to an end, so do the texts one after the other. -/
theorem runEach_of_iterate (hflush : Console.FlushesUnseen same) {sources : List String}
    {position : Nat} (hq : q.HoldsTexts position sources) (hmeets : Meets position m n)
    (hsame : same c d) {fuel : Nat} {x : Except RuntimeError Unit × Machine × κ}
    (hwhole : iterate (stepWith q) fuel (n, d) = some x) :
    ∃ fuel' y, runEach fuel' sources m c = some y := by
  induction sources generalizing position m n c d fuel with
  | nil => exact ⟨0, _, rfl⟩
  | cons source sources ih =>
    obtain ⟨fuel₁, ⟨stopped, m₁, c₀⟩, hpiece⟩ :=
      returns_of_embeds hq.first hflush.toRespected (inCode_rewind _ _ m) hmeets.inStep hsame hwhole
    obtain ⟨fuel₁, hfirst⟩ := (run_eq_some_iff hq.first.proper.hasHeader).mpr
      ⟨stopped, c₀, ⟨fuel₁, hpiece⟩, rfl, rfl⟩
    cases hr : settle stopped (Console.flush c₀).1 with
    | error e => exact ⟨fuel₁, (0, .error e, m₁, _), by rw [runEach, hfirst, hr]⟩
    | ok =>
      rw [hr] at hfirst
      obtain ⟨n₁, d₁, hreach, hmeets₁, hsame₁⟩ :=
        (run_of_embeds hq.first hflush hmeets hsame hfirst).2 rfl
      obtain ⟨fuel₂, hlater⟩ := (iterate_iff_of_reaches hreach).mp ⟨fuel, hwhole⟩
      obtain ⟨fuel₃, y, hy⟩ := ih hq.rest hmeets₁ hsame₁ hlater
      refine ⟨max fuel₁ fuel₃, (y.1 + 1, y.2), ?_⟩
      rw [runEach, run_mono (Nat.le_max_left _ _) hfirst]
      dsimp only
      rw [runEach_mono (Nat.le_max_right _ _) hy, Option.map_some]

/-- Balanced source texts run one after the other, up to the first that fails, as the one text that
they make up: one returns exactly if the other does, and then with the same result, tape, pointer
and step counter and with consoles of which each passes for the other. An error is reported further
on in the one text, by the number of instructions before the text that failed. -/
theorem runEach_as_one_run (hflush : Console.FlushesUnseen same) {sources : List String}
    (hsources : ∀ source ∈ sources, checkBalanced source = .ok ()) (m : Machine) {c : κ}
    (hc : same c c) :
    ((∃ fuel x, runEach fuel sources m c = some x) ↔
        ∃ fuel x, run fuel (compile (String.join sources)) m c = some x) ∧
      ∀ fuel fuel' k r m₁ c₁ r' m₂ c₂, runEach fuel sources m c = some (k, r, m₁, c₁) →
        run fuel' (compile (String.join sources)) m c = some (r', m₂, c₂) →
          r' = shiftResult (instructionCount (sources.take k)) r ∧ m₁.tape = m₂.tape ∧
            m₁.pointer = m₂.pointer ∧ m₁.steps = m₂.steps ∧ same c₁ c₂ := by
  have hq := holdsTexts_compile hsources
  have hmeets : Meets 0 m m.rewind := ⟨⟨rfl, rfl, rfl⟩, rfl, rfl⟩
  generalize compile (String.join sources) = q at hq
  have hone {fuel k r m₁ c₁} (hrun : runEach fuel sources m c = some (k, r, m₁, c₁)) :
      ∃ fuel' n' d', run fuel' q m c =
          some (shiftResult (instructionCount (sources.take k)) r, n', d') ∧
        SameStore m₁ n' ∧ same c₁ d' := by
    obtain ⟨fuel', n', d', hiterate, hstore, hsame⟩ :=
      iterate_of_runEach hflush hq hmeets hc hrun
    obtain ⟨hflushed, hafter⟩ := hflush.flush (hflush.symm hsame)
    obtain ⟨fuel', hwhole⟩ := (run_eq_some_iff hq.header).mpr ⟨_, d', ⟨fuel', hiterate⟩, rfl, rfl⟩
    refine ⟨fuel', n', _, ?_, hstore, hflush.symm hafter⟩
    rw [hwhole, hflushed, settle_ok, Nat.zero_add]
  refine ⟨⟨fun h => ?_, fun h => ?_⟩, ?_⟩
  · obtain ⟨fuel, ⟨k, r, m₁, c₁⟩, hrun⟩ := h
    obtain ⟨fuel', n', d', hwhole, -⟩ := hone hrun
    exact ⟨fuel', _, hwhole⟩
  · obtain ⟨fuel, ⟨r, m', c'⟩, hrun⟩ := h
    obtain ⟨stopped, c₀, ⟨fuel', hiterate⟩, -⟩ := (run_eq_some_iff hq.header).mp ⟨fuel, hrun⟩
    exact runEach_of_iterate hflush hq hmeets hc hiterate
  · intro fuel fuel' k r m₁ c₁ r' m₂ c₂ hrun hwhole
    obtain ⟨fuel'', n', d', hwhole', hstore, hsame⟩ := hone hrun
    obtain ⟨rfl, rfl, rfl⟩ : r' = _ ∧ m₂ = n' ∧ c₂ = d' := by
      simpa using run_unique hwhole hwhole'
    exact ⟨rfl, hstore.tape, hstore.pointer, hstore.steps, hsame⟩

/-- The second of two texts fails, and the one text fails five instructions further on. -/
theorem runEach_as_one_run_underflow :
    (∀ source ∈ ["+[-]>", "+<<"], checkBalanced source = .ok ()) ∧
      runEach 6 ["+[-]>", "+<<"] (new ⟨1, 1⟩) ({} : Terminal) =
          some (1, .error (.pointerUnderflow 18), ⟨⟨#[0, 1], 1, 1⟩, 0, 18, [], 8⟩, {}) ∧
        ∃ fuel x, run fuel (compile (String.join ["+[-]>", "+<<"])) (new ⟨1, 1⟩) ({} : Terminal) =
            some x ∧ x.1 = .error (.pointerUnderflow 23) ∧ x.2.1.tape = ⟨#[0, 1], 1, 1⟩ := by
  have hsources : ∀ source ∈ ["+[-]>", "+<<"], checkBalanced source = .ok () := by
    simp only [List.forall_mem_cons]
    exact ⟨by cbv, by cbv, by simp⟩
  have hrun : runEach 6 ["+[-]>", "+<<"] (new ⟨1, 1⟩) ({} : Terminal) =
      some (1, .error (.pointerUnderflow 18), ⟨⟨#[0, 1], 1, 1⟩, 0, 18, [], 8⟩, {}) := by cbv
  obtain ⟨hreturns, hagree⟩ :=
    runEach_as_one_run Terminal.flushesUnseen hsources (new ⟨1, 1⟩) (c := {}) ⟨rfl, rfl⟩
  obtain ⟨fuel, ⟨r, m, c⟩, hwhole⟩ := hreturns.mp ⟨6, _, hrun⟩
  obtain ⟨hresult, htape, -⟩ := hagree _ _ _ _ _ _ _ _ _ hrun hwhole
  refine ⟨hsources, hrun, fuel, _, hwhole, ?_, htape.symm⟩
  rw [hresult, show instructionCount (["+[-]>", "+<<"].take 1) = 5 by cbv]
  rfl

end Machine

end TapeMachine
