import Mathlib.Data.List.Permutation
import TapeMachine.Proofs.Actions
import TapeMachine.Proofs.LoopScan
import TapeMachine.Proofs.SourceText

/-!
# Runs carry out structured code

The machine knows no loops, only brackets: it enters a loop by a push, starts it over by a jump
behind the first bracket, and passes over it by a scan. Standing on the first bracket of a loop and
standing on its last bracket with the loop open are the same to it. With this, the steps of the
machine follow the rules of structured code, and a run that ends has followed a derivation.
-/

namespace TapeMachine

open Relation (ReflTransGen)

/-- The bytes of code in a program. -/
def Code.bytes (code : Code) : List UInt8 := code.opcodes.map Opcode.byte

/-- The bytes of a loop are its body between two brackets, and the rest. -/
theorem holds_loop_bytes {p : Program} {ip : Nat} {body rest : Code} :
    p.Holds ip (Code.loop body rest).bytes ↔
      p.get? ip = some Opcode.loopStart.byte ∧ p.Holds (ip + 1) body.bytes ∧
        p.get? (ip + body.opcodes.length + 1) = some Opcode.loopEnd.byte ∧
          p.Holds (ip + body.opcodes.length + 2) rest.bytes := by
  rw [show (Code.loop body rest).bytes =
      Opcode.loopStart.byte :: (body.bytes ++ Opcode.loopEnd.byte :: rest.bytes) by
    simp [Code.bytes, Code.opcodes]]
  rw [Program.holds_cons, Program.holds_append, Program.holds_cons,
    show ip + 1 + body.bytes.length = ip + body.opcodes.length + 1 by
      rw [Code.bytes, List.length_map]; omega]

/-- The scan over a loop ends at its last bracket. -/
theorem loopEnd?_of_holds {p : Program} {ip : Nat} {body rest : Code}
    (hcode : p.Holds ip (Code.loop body rest).bytes) :
    p.loopEnd? ip = some (ip + body.opcodes.length + 1) := by
  obtain ⟨-, hbody, hend, -⟩ := holds_loop_bytes.mp hcode
  have hbalanced : Balanced bracketOfByte? body.bytes :=
    balanced_map_byte_iff.mpr body.balanced_opcodes
  have hnohalt : Opcode.halt.byte ∉ body.bytes := by
    intro h
    exact body.halt_not_mem_opcodes (byte_mem_map_iff.mp h)
  have hlength : body.bytes.length = body.opcodes.length := List.length_map _
  refine Program.loopEnd?_eq_some_iff.mpr ⟨body.bytes, hbalanced, hnohalt, ?_, by rw [hlength]⟩
  refine Program.holds_append.mpr ⟨hbody, Program.holds_cons.mpr ⟨?_, Program.holds_nil⟩⟩
  rw [hlength, ← hend]
  congr 1
  omega

namespace Machine

variable {κ : Type} [Console κ] {p : Program} {m m' : Machine} {c c' : κ}

/--
The machine is about to carry out code at a position with outer loops open. For a loop it may also
stand on the last bracket with the loop itself open.
-/
def StandsAt (code : Code) (ip : Nat) (outer : List Nat) (m : Machine) : Prop :=
  (m.ip = ip ∧ m.loopStack = outer) ∨
    ∃ body rest, code = .loop body rest ∧ m.ip = ip + body.opcodes.length + 1 ∧
      m.loopStack = ip :: outer

/-- With a zero cell a step leaves the loop that the machine stands at, from either bracket. -/
theorem step_eq_of_loopDone {ip : Nat} {outer : List Nat} {body rest : Code} (hp : p.hasHeader = true)
    (hcode : p.Holds ip (Code.loop body rest).bytes) (hm : StandsAt (.loop body rest) ip outer m)
    (hcell : m.currentCell = 0) :
    step p m c = (.ok .running,
      { m with ip := ip + body.opcodes.length + 2, loopStack := outer, steps := m.steps + 1 }, c) := by
  obtain ⟨hstart, -, hend, -⟩ := holds_loop_bytes.mp hcode
  have hcount : m.count.currentCell = 0 := hcell
  rcases hm with ⟨rfl, rfl⟩ | ⟨body', rest', heq, hip, hstack⟩
  · have hfetch : m.fetch p = .ok .loopStart := fetch_eq_ok_iff.mpr ⟨hp, hstart⟩
    have hscan : p.loopEnd? m.count.ip = some (m.ip + body.opcodes.length + 1) :=
      loopEnd?_of_holds hcode
    have hexec : exec p .loopStart m.count c =
        (.ok (), { m.count with ip := m.ip + body.opcodes.length + 1 }, c) := by
      simp only [exec_loopStart, hcount, if_true, hscan]
    exact step_eq_running_iff.mpr ⟨_, _, hfetch, by simp, hexec, rfl⟩
  · obtain ⟨rfl, rfl⟩ := Code.loop.inj heq
    have hfetch : m.fetch p = .ok .loopEnd := fetch_eq_ok_iff.mpr ⟨hp, by rw [hip, hend]⟩
    have hopen : m.count.loopStack = ip :: outer := hstack
    have hexec : exec p .loopEnd m.count c = (.ok (), { m.count with loopStack := outer }, c) := by
      simp only [exec, hopen, hcount, if_true]
    refine step_eq_running_iff.mpr ⟨_, _, hfetch, by simp, hexec, ?_⟩
    simp only [next, count, hip]

/-- With another cell a step gets to the body of the loop that the machine stands at, from either
bracket. -/
theorem step_eq_of_loopAgain {ip : Nat} {outer : List Nat} {body rest : Code} (hp : p.hasHeader = true)
    (hcode : p.Holds ip (Code.loop body rest).bytes) (hm : StandsAt (.loop body rest) ip outer m)
    (hcell : m.currentCell ≠ 0) :
    step p m c = (.ok .running,
      { m with ip := ip + 1, loopStack := ip :: outer, steps := m.steps + 1 }, c) := by
  obtain ⟨hstart, -, hend, -⟩ := holds_loop_bytes.mp hcode
  have hcount : m.count.currentCell ≠ 0 := hcell
  rcases hm with ⟨rfl, rfl⟩ | ⟨body', rest', heq, hip, hstack⟩
  · have hfetch : m.fetch p = .ok .loopStart := fetch_eq_ok_iff.mpr ⟨hp, hstart⟩
    have hexec : exec p .loopStart m.count c =
        (.ok (), { m.count with loopStack := m.ip :: m.loopStack }, c) := by
      rw [exec, if_neg hcount]
      rfl
    exact step_eq_running_iff.mpr ⟨_, _, hfetch, by simp, hexec, rfl⟩
  · obtain ⟨rfl, rfl⟩ := Code.loop.inj heq
    have hfetch : m.fetch p = .ok .loopEnd := fetch_eq_ok_iff.mpr ⟨hp, by rw [hip, hend]⟩
    have hopen : m.count.loopStack = ip :: outer := hstack
    have hexec : exec p .loopEnd m.count c = (.ok (), { m.count with ip }, c) := by
      simp only [exec, hopen, if_neg hcount]
    refine step_eq_running_iff.mpr ⟨_, _, hfetch, by simp, hexec, ?_⟩
    simp only [next, count, hstack]

/-- With a zero cell the machine leaves the loop it stands at and the world stays as it is. -/
theorem step_loopDone {ip : Nat} {outer : List Nat} {body rest : Code} (hp : p.hasHeader = true)
    (hcode : p.Holds ip (Code.loop body rest).bytes) (hm : StandsAt (.loop body rest) ip outer m)
    (hcell : m.currentCell = 0) :
    ∃ m', step p m c = (.ok .running, m', c) ∧ m'.world c = m.world c ∧
      m'.ip = ip + body.opcodes.length + 2 ∧ m'.loopStack = outer :=
  ⟨_, step_eq_of_loopDone hp hcode hm hcell, rfl, rfl, rfl⟩

/-- With another cell the machine gets to the body of the loop it stands at and the world stays as it
is. -/
theorem step_loopAgain {ip : Nat} {outer : List Nat} {body rest : Code} (hp : p.hasHeader = true)
    (hcode : p.Holds ip (Code.loop body rest).bytes) (hm : StandsAt (.loop body rest) ip outer m)
    (hcell : m.currentCell ≠ 0) :
    ∃ m', step p m c = (.ok .running, m', c) ∧ m'.world c = m.world c ∧
      m'.ip = ip + 1 ∧ m'.loopStack = ip :: outer :=
  ⟨_, step_eq_of_loopAgain hp hcode hm hcell, rfl, rfl, rfl⟩

/--
From a state, steps lead to a position with the outer loops open, or to a step that fails; and the
world there is as given.
-/
def Arrives (p : Program) (ip : Nat) (outer : List Nat) (s : Machine × κ) :
    Except RuntimeError Unit → World κ → Prop
  | .ok (), t => ∃ m, ReflTransGen (Continues (stepWith p)) s (m, t.console) ∧ m.ip = ip ∧
      m.loopStack = outer ∧ m.world t.console = t
  | .error e, t => ∃ u m, ReflTransGen (Continues (stepWith p)) s u ∧
      stepWith p u = (.error e, m, t.console) ∧ m.world t.console = t

/-- Steps in front do not change where a state arrives. -/
theorem Arrives.prepend {ip : Nat} {outer : List Nat} {s s' : Machine × κ}
    {r : Except RuntimeError Unit} {t : World κ} (h : Arrives p ip outer s' r t)
    (hsteps : ReflTransGen (Continues (stepWith p)) s s') : Arrives p ip outer s r t := by
  cases r with
  | ok =>
    obtain ⟨m, hm, hend⟩ := h
    exact ⟨m, hsteps.trans hm, hend⟩
  | error e =>
    obtain ⟨u, m, hu, hend⟩ := h
    exact ⟨u, m, hsteps.trans hu, hend⟩

/-- The machine follows every derivation of the code it stands at. -/
theorem arrives_of_eval (hp : p.hasHeader = true) {ip : Nat} {code : Code} {s t : World κ}
    {r : Except RuntimeError Unit} (h : Code.Eval ip code s r t) {outer : List Nat} {m : Machine}
    {c : κ} (hcode : p.Holds ip code.bytes) (hm : StandsAt code ip outer m) (hs : m.world c = s) :
    Arrives p (ip + code.opcodes.length) outer (m, c) r t := by
  induction h generalizing outer m c with
  | done =>
    subst hs
    rcases hm with ⟨rfl, rfl⟩ | ⟨_, _, heq, -⟩
    · exact ⟨m, .refl, rfl, rfl, rfl⟩
    · contradiction
  | @act ip action rest s s' t r haction hrest ih =>
    subst hs
    rcases hm with ⟨rfl, rfl⟩ | ⟨_, _, heq, -⟩
    · obtain ⟨hget, hheld⟩ := Program.holds_cons.mp hcode
      have hfetch : m.fetch p = .ok action.opcode := fetch_eq_ok_iff.mpr ⟨hp, hget⟩
      obtain ⟨m', hstep, hworld, hip, hstack⟩ := step_of_performs hfetch haction
      have htail := ih hheld (.inl ⟨hip, hstack⟩) hworld
      rw [Code.opcodes, List.length_cons, Nat.add_comm rest.opcodes.length, ← Nat.add_assoc]
      exact htail.prepend (.single hstep)
    · contradiction
  | @actFailed ip action rest s t e haction =>
    subst hs
    rcases hm with ⟨rfl, rfl⟩ | ⟨_, _, heq, -⟩
    · obtain ⟨hget, -⟩ := Program.holds_cons.mp hcode
      have hfetch : m.fetch p = .ok action.opcode := fetch_eq_ok_iff.mpr ⟨hp, hget⟩
      obtain ⟨m', hstep, hworld⟩ := step_of_performs_error hfetch haction
      exact ⟨(m, c), m', .refl, hstep, hworld⟩
    · contradiction
  | @loopDone ip body rest s t r hcell hrest ih =>
    subst hs
    obtain ⟨m', hstep, hworld, hip, hstack⟩ := step_loopDone (c := c) hp hcode hm hcell
    have htail := ih (holds_loop_bytes.mp hcode).2.2.2 (.inl ⟨hip, hstack⟩) hworld
    have hlength : ip + (Code.loop body rest).opcodes.length =
        ip + body.opcodes.length + 2 + rest.opcodes.length := by
      simp only [Code.opcodes, List.length_cons, List.length_append]
      omega
    rw [hlength]
    exact htail.prepend (.single hstep)
  | @loopAgain ip body rest s s' t r hcell hbody hagain ihbody ihagain =>
    subst hs
    obtain ⟨m', hstep, hworld, hip, hstack⟩ := step_loopAgain (c := c) hp hcode hm hcell
    obtain ⟨m'', hsteps, hip'', hstack'', hworld''⟩ :=
      ihbody (holds_loop_bytes.mp hcode).2.1 (.inl ⟨hip, hstack⟩) hworld
    -- The body ends on the last bracket with the loop open, where the loop can start over.
    have hm'' : StandsAt (.loop body rest) ip outer m'' :=
      .inr ⟨body, rest, rfl, by omega, hstack''⟩
    exact (ihagain hcode hm'' hworld'').prepend (.head hstep hsteps)
  | @loopFailed ip body rest s t e hcell hbody ih =>
    subst hs
    obtain ⟨m', hstep, hworld, hip, hstack⟩ := step_loopAgain (c := c) hp hcode hm hcell
    obtain ⟨u, m'', hsteps, hfail, hworld''⟩ :=
      ih (holds_loop_bytes.mp hcode).2.1 (.inl ⟨hip, hstack⟩) hworld
    exact ⟨u, m'', .head hstep hsteps, hfail, hworld''⟩

/--
A repetition of steps that ends has carried out code and goes on behind it with what is left of its
fuel, or it has failed inside the code.
-/
def Follows (p : Program) (ip : Nat) (code : Code) (outer : List Nat) (fuel : Nat) (s : World κ)
    (r : Except RuntimeError Unit) (v : Machine × κ) : Prop :=
  (∃ m c left, code.Eval ip s (.ok ()) (m.world c) ∧ m.ip = ip + code.opcodes.length ∧
      m.loopStack = outer ∧ left ≤ fuel ∧ iterate (stepWith p) left (m, c) = some (r, v)) ∨
    ∃ e, r = .error e ∧ code.Eval ip s (.error e) (v.1.world v.2)

/-- What was carried out from a later state on is carried out from an earlier one. -/
theorem Follows.lift {ip ip' fuel fuel' : Nat} {code code' : Code} {outer : List Nat}
    {s s' : World κ} {r : Except RuntimeError Unit} {v : Machine × κ}
    (h : Follows p ip' code' outer fuel' s' r v)
    (heval : ∀ r t, code'.Eval ip' s' r t → code.Eval ip s r t)
    (hip : ip' + code'.opcodes.length = ip + code.opcodes.length) (hfuel : fuel' ≤ fuel) :
    Follows p ip code outer fuel s r v := by
  rcases h with ⟨m, c, left, h, hm, hstack, hleft, hend⟩ | ⟨e, he, h⟩
  · exact .inl ⟨m, c, left, heval _ _ h, hm.trans hip, hstack, Nat.le_trans hleft hfuel, hend⟩
  · exact .inr ⟨e, he, heval _ _ h⟩

/-- A repetition of steps that ends follows the rules for the code it starts at. -/
theorem follows_of_iterate (hp : p.hasHeader = true) {fuel ip : Nat} {code : Code} {outer : List Nat}
    {m : Machine} {c : κ} {r : Except RuntimeError Unit} {v : Machine × κ}
    (hcode : p.Holds ip code.bytes) (hm : StandsAt code ip outer m)
    (h : iterate (stepWith p) fuel (m, c) = some (r, v)) :
    Follows p ip code outer fuel (m.world c) r v := by
  -- Strong induction: the second round of a loop starts with what the first round has left.
  induction fuel using Nat.strongRecOn generalizing ip code outer m c with
  | ind fuel ih =>
    cases fuel with
    | zero => contradiction
    | succ fuel =>
      cases code with
      | done =>
        rcases hm with ⟨rfl, rfl⟩ | ⟨_, _, heq, -⟩
        · exact .inl ⟨m, c, fuel + 1, .done, rfl, rfl, Nat.le_refl _, h⟩
        · contradiction
      | act action rest =>
        rcases hm with ⟨rfl, rfl⟩ | ⟨_, _, heq, -⟩
        · obtain ⟨hget, hheld⟩ := Program.holds_cons.mp hcode
          have hfetch : m.fetch p = .ok action.opcode := fetch_eq_ok_iff.mpr ⟨hp, hget⟩
          rcases continues_or_stops (stepWith p) (m, c) with ⟨⟨m', c'⟩, hstep⟩ | ⟨r', v', hstop⟩
          · obtain ⟨haction, hip, hstack⟩ := performs_of_step hfetch hstep
            rw [iterate_of_continues hstep] at h
            have hrest := ih fuel (Nat.lt_succ_self _) hheld (.inl ⟨hip, hstack⟩) h
            apply hrest.lift (fun r t => Code.Eval.act haction) _ (Nat.le_succ _)
            simp only [Code.opcodes, List.length_cons]
            omega
          · rw [iterate_of_stops hstop] at h
            obtain ⟨rfl, rfl⟩ : r' = r ∧ v' = v := by simpa using h
            obtain ⟨e, rfl, haction⟩ := performs_of_stops hfetch hstop
            exact .inr ⟨e, rfl, .actFailed haction⟩
        · contradiction
      | loop body rest =>
        obtain ⟨-, hbody, -, hrest⟩ := holds_loop_bytes.mp hcode
        by_cases hcell : m.currentCell = 0
        · obtain ⟨m', hstep, hworld, hip, hstack⟩ := step_loopDone (c := c) hp hcode hm hcell
          have hcontinues : Continues (stepWith p) (m, c) (m', c) := hstep
          rw [iterate_of_continues hcontinues] at h
          have htail := ih fuel (Nat.lt_succ_self _) hrest (.inl ⟨hip, hstack⟩) h
          rw [hworld] at htail
          apply htail.lift (fun r t => Code.Eval.loopDone hcell) _ (Nat.le_succ _)
          simp only [Code.opcodes, List.length_cons, List.length_append]
          omega
        · obtain ⟨m', hstep, hworld, hip, hstack⟩ := step_loopAgain (c := c) hp hcode hm hcell
          have hcontinues : Continues (stepWith p) (m, c) (m', c) := hstep
          rw [iterate_of_continues hcontinues] at h
          have hround := ih fuel (Nat.lt_succ_self _) hbody (.inl ⟨hip, hstack⟩) h
          rw [hworld] at hround
          rcases hround with ⟨m'', c'', left, heval, hip'', hstack'', hleft, hend⟩ | ⟨e, rfl, heval⟩
          · have hm'' : StandsAt (.loop body rest) ip outer m'' :=
              .inr ⟨body, rest, rfl, by omega, hstack''⟩
            have hagain := ih left (by omega) hcode hm'' hend
            exact hagain.lift (fun r t => Code.Eval.loopAgain hcell heval) rfl (by omega)
          · exact .inr ⟨e, rfl, .loopFailed hcell heval⟩

/-- The flush at the end settles what the code has come to. -/
theorem finishes_iff {code : Code} {s t : World κ} {r : Except RuntimeError Unit} :
    code.Finishes s r t ↔ ∃ stopped u, code.Eval Program.entry s stopped u ∧
      r = settle stopped (Console.flush u.console).1 ∧
        t = { u with console := (Console.flush u.console).2 } := by
  refine ⟨fun h => ?_, fun h => ?_⟩
  · cases h with
    | @flushed r u console heval hflush =>
      refine ⟨r, u, heval, ?_, by rw [hflush]⟩
      rw [hflush]
      cases r <;> rfl
    | @flushFailed u console e heval hflush =>
      exact ⟨_, u, heval, by rw [hflush, settle], by rw [hflush]⟩
    | @bothFailed u console e e' heval hflush =>
      exact ⟨_, u, heval, by rw [hflush, settle], by rw [hflush]⟩
  · obtain ⟨stopped, u, heval, rfl, rfl⟩ := h
    rcases hflush : Console.flush u.console with ⟨_ | _, console⟩
    · cases stopped with
      | error e => exact .bothFailed heval hflush
      | ok => exact .flushFailed heval hflush
    · cases stopped with
      | error e => exact .flushed heval hflush
      | ok => exact .flushed heval hflush

/-- Steps over code with a `halt` behind it stop exactly where the rules lead. -/
theorem iterate_iff_eval (hp : p.hasHeader = true) {code : Code}
    (hcode : p.Holds m.ip (code.bytes ++ [Opcode.halt.byte])) {r : Except RuntimeError Unit}
    {t : World κ} :
    (∃ fuel m', iterate (stepWith p) fuel (m, c) = some (r, m', t.console) ∧
        m'.world t.console = t) ↔ code.Eval m.ip (m.world c) r t := by
  obtain ⟨hheld, hlast⟩ := Program.holds_append.mp hcode
  have hhalt {n : Machine} (hn : n.ip = m.ip + code.opcodes.length) : n.fetch p = .ok .halt := by
    refine fetch_eq_ok_iff.mpr ⟨hp, ?_⟩
    rw [hn, ← (Program.holds_cons.mp hlast).1, Code.bytes, List.length_map]
  have hm : StandsAt code m.ip m.loopStack m := .inl ⟨rfl, rfl⟩
  refine ⟨fun h => ?_, fun h => ?_⟩
  · obtain ⟨fuel, m', hiterate, hworld⟩ := h
    rcases follows_of_iterate hp hheld hm hiterate with
      ⟨n, c', left, heval, hip, -, -, hend⟩ | ⟨e, rfl, heval⟩
    · have hstop : Stops (stepWith p) (n, c') (.ok ()) (n, c') :=
        .halted (step_eq_halted_iff.mpr ⟨hhalt hip, rfl, rfl⟩)
      cases left with
      | zero => contradiction
      | succ left =>
        rw [iterate_of_stops hstop] at hend
        obtain ⟨rfl, rfl, hconsole⟩ : .ok () = r ∧ n = m' ∧ c' = t.console := by simpa using hend
        rwa [← hworld, ← hconsole]
    · rwa [← hworld]
  · have harrives := arrives_of_eval hp h hheld hm rfl
    cases r with
    | ok =>
      obtain ⟨n, hsteps, hip, -, hworld⟩ := harrives
      have hstop : Stops (stepWith p) (n, t.console) (.ok ()) (n, t.console) :=
        .halted (step_eq_halted_iff.mpr ⟨hhalt hip, rfl, rfl⟩)
      obtain ⟨fuel, hfuel⟩ := iterate_eq_some_iff.mpr ⟨_, hsteps, hstop⟩
      exact ⟨fuel, n, hfuel, hworld⟩
    | error e =>
      obtain ⟨u, n, hsteps, hstep, hworld⟩ := harrives
      obtain ⟨fuel, hfuel⟩ := iterate_eq_some_iff.mpr ⟨u, hsteps, .failed hstep⟩
      exact ⟨fuel, n, hfuel, hworld⟩

/-- A run of framed code finishes exactly as the code does. -/
theorem run_ofOpcodes_iff {code : Code} {r : Except RuntimeError Unit} {t : World κ} :
    (∃ fuel m' c', run fuel (.ofOpcodes code.opcodes) m c = some (r, m', c') ∧ m'.world c' = t) ↔
      code.Finishes (m.world c) r t := by
  have hp := Program.hasHeader_ofOpcodes code.opcodes
  have hcode : (Program.ofOpcodes code.opcodes).Holds Program.entry
      (code.bytes ++ [Opcode.halt.byte]) := Program.holds_ofOpcodes code.opcodes
  have hiff (stopped : Except RuntimeError Unit) (u : World κ) :=
    iterate_iff_eval (m := m.rewind) (c := c) (r := stopped) (t := u) hp hcode
  rw [finishes_iff]
  refine ⟨fun h => ?_, fun h => ?_⟩
  · obtain ⟨fuel, m', c', hrun, rfl⟩ := h
    obtain ⟨stopped, c₀, ⟨fuel, hfuel⟩, rfl, rfl⟩ := (run_eq_some_iff hp).mp ⟨fuel, hrun⟩
    exact ⟨stopped, m'.world c₀, (hiff _ _).mp ⟨fuel, m', hfuel, rfl⟩, rfl, rfl⟩
  · obtain ⟨stopped, u, heval, rfl, rfl⟩ := h
    obtain ⟨fuel, m', hfuel, hworld⟩ := (hiff _ _).mpr heval
    obtain ⟨fuel, hrun⟩ := (run_eq_some_iff hp).mpr ⟨stopped, _, ⟨fuel, hfuel⟩, rfl, rfl⟩
    refine ⟨fuel, m', _, hrun, ?_⟩
    rw [← hworld]
    rfl

/-- A balanced source text is code in one way, and running what it compiles to, on any machine and
console, ends exactly as the code does; a move off the left end is reported where it stands. -/
theorem run_compile_iff_finishes {source : String} (hsource : checkBalanced source = .ok ()) :
    (∃! code : Code, code.opcodes = instructions source) ∧
      ∀ code : Code, code.opcodes = instructions source → ∀ (m : Machine) (c : κ) (t : World κ),
        (∀ r, (∃ fuel m' c', run fuel (compile source) m c = some (r, m', c') ∧ m'.world c' = t) ↔
            code.Finishes (m.world c) r t) ∧
          ∀ ip, code.Finishes (m.world c) (.error (.pointerUnderflow ip)) t →
            ∃ i, ip = Program.entry + i ∧ (instructions source)[i]? = some .moveLeft ∧
              t.pointer = 0 := by
  refine ⟨?_, fun code hcode m c t => ⟨fun r => ?_, fun ip h => ?_⟩⟩
  · have hbalanced := (checkBalanced_eq_ok_iff source).mp hsource
    obtain ⟨code, hcode⟩ := Code.exists_opcodes_eq hbalanced (halt_not_mem_instructions source)
    exact ⟨code, hcode, fun other hother => Code.opcodes_injective (hother.trans hcode.symm)⟩
  · rw [compile_eq, ← hcode]
    exact run_ofOpcodes_iff
  · rw [← hcode]
    cases h with
    | flushed heval hflush => exact heval.underflow
    | bothFailed heval hflush => exact heval.underflow

/-- A loop that empties its cell, and then a move off the left end. -/
theorem run_compile_iff_finishes_underflow :
    checkBalanced "+[-]<" = .ok () ∧
      run 6 (compile "+[-]<") (new ⟨1, 1⟩) ({} : Terminal) =
          some (.error (.pointerUnderflow 20), ⟨⟨#[0], 1, 0⟩, 0, 20, [], 5⟩, {}) ∧
        Code.Finishes (.act .increment (.loop (.act .decrement .done) (.act .moveLeft .done)))
          ((new ⟨1, 1⟩).world ({} : Terminal)) (.error (.pointerUnderflow 20))
          (world ⟨⟨#[0], 1, 0⟩, 0, 20, [], 5⟩ {}) := by
  have hsource : checkBalanced "+[-]<" = .ok () := by cbv
  have hrun : run 6 (compile "+[-]<") (new ⟨1, 1⟩) ({} : Terminal) =
      some (.error (.pointerUnderflow 20), ⟨⟨#[0], 1, 0⟩, 0, 20, [], 5⟩, {}) := by cbv
  have hcode : (Code.act .increment (.loop (.act .decrement .done) (.act .moveLeft .done))).opcodes =
      instructions "+[-]<" := by cbv
  have hmeaning := (run_compile_iff_finishes hsource).2 _ hcode (new ⟨1, 1⟩) ({} : Terminal)
  exact ⟨hsource, hrun, ((hmeaning _).1 _).mp ⟨6, _, _, hrun, rfl⟩⟩

end Machine

end TapeMachine
