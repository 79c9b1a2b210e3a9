import Mathlib.Data.List.Basic
import Mathlib.Tactic.IntervalCases
import TapeMachine.Proofs.LoopStack
import TapeMachine.Proofs.SourceText

/-!
# Well-formed programs

A program is well formed when behind its header there is balanced code, then `halt`, then anything.
However long such a program runs, and whatever an earlier run left on the machine, no step blames
the program: every instruction is fetched, every loop that is passed over has its end, and every
loop end its loop. The check of a source text accepts exactly the texts that compile to such
programs.
-/

namespace TapeMachine

open Relation (ReflTransGen)

/-- The header, then the code `w` of balanced instructions other than `halt`, then a `halt`. -/
structure Program.Proper (p : Program) (w : List UInt8) : Prop where
  framed : ∃ rest, p.bytes.toList = Program.header.toList ++ w ++ Opcode.halt.byte :: rest
  known : ∀ b ∈ w, b ≤ 7
  balanced : Balanced bracketOfByte? w

/-- A program that has proper code. -/
def Program.WellFormed (p : Program) : Prop := ∃ w, p.Proper w

/-- The errors that say that something is wrong with the bytes of the program. -/
def RuntimeError.BlamesProgram : RuntimeError → Prop
  | .corrupted _ _ => True
  | .unknownOpcode _ _ => True
  | .missingHeader => True
  | _ => False

namespace Program

variable {p : Program} {w : List UInt8}

/-- A byte up to seven is an instruction other than `halt`. -/
theorem exists_opcode_of_le {b : UInt8} (hb : b ≤ 7) : ∃ op, op ≠ Opcode.halt ∧ b = op.byte := by
  have hnat : b.toNat ≤ 7 := hb
  have hbyte : b = UInt8.ofNat b.toNat := by simp
  generalize b.toNat = n at hnat hbyte
  subst hbyte
  interval_cases n
  · exact ⟨.moveRight, by decide, rfl⟩
  · exact ⟨.moveLeft, by decide, rfl⟩
  · exact ⟨.increment, by decide, rfl⟩
  · exact ⟨.decrement, by decide, rfl⟩
  · exact ⟨.output, by decide, rfl⟩
  · exact ⟨.input, by decide, rfl⟩
  · exact ⟨.loopStart, by decide, rfl⟩
  · exact ⟨.loopEnd, by decide, rfl⟩

/-- The byte of an instruction other than `halt` is at most seven. -/
theorem byte_le_of_ne_halt {op : Opcode} (hop : op ≠ .halt) : op.byte ≤ 7 := by
  cases op <;> first | contradiction | decide

/-- Proper code has no `halt` in it. -/
theorem Proper.halt_not_mem (hp : p.Proper w) : Opcode.halt.byte ∉ w := by
  intro h
  exact absurd (hp.known _ h) (by decide)

/-- A proper program starts with the header. -/
theorem Proper.hasHeader (hp : p.Proper w) : p.hasHeader = true := by
  obtain ⟨rest, hbytes⟩ := hp.framed
  rw [hasHeader_iff, hbytes, List.append_assoc]
  exact List.prefix_append _ _

/-- Behind the header stands the code and a `halt`. -/
theorem Proper.holds (hp : p.Proper w) : p.Holds entry (w ++ [Opcode.halt.byte]) := by
  obtain ⟨rest, hbytes⟩ := hp.framed
  rw [Holds, hbytes, List.append_assoc, show entry = header.toList.length from rfl, List.drop_left,
    List.append_cons w _ rest]
  exact List.prefix_append _ _

/-- The `halt` of a proper program stands right behind its code. -/
theorem Proper.get?_halt (hp : p.Proper w) : p.get? (entry + w.length) = some Opcode.halt.byte :=
  hp.holds.get?

/-- What stands at a position of the code splits the code there. -/
theorem Proper.split (hp : p.Proper w) {i : Nat} (hlow : entry ≤ i) (hhigh : i < entry + w.length) :
    ∃ u b v, w = u ++ b :: v ∧ i = entry + u.length ∧ p.get? i = some b :=
  (holds_append.mp hp.holds).1.split hlow hhigh

/-- A loop that starts in the code is passed over, and its end lies in the code. -/
theorem Proper.exists_loopEnd (hp : p.Proper w) {i : Nat} (hlow : entry ≤ i)
    (hhigh : i < entry + w.length) (hget : p.get? i = some Opcode.loopStart.byte) :
    ∃ j, p.loopEnd? i = some j := by
  obtain ⟨u, b, v, rfl, rfl, hb⟩ := hp.split hlow hhigh
  obtain rfl : Opcode.loopStart.byte = b := by simpa [hget] using hb
  obtain ⟨body, b, rest, rfl, hbody, hclosing⟩ := hp.balanced.exists_closing rfl
  obtain rfl := bracketOfByte?_eq_closing.mp hclosing
  have hnohalt : Opcode.halt.byte ∉ body := by
    intro h
    exact hp.halt_not_mem (by simp [h])
  exact ⟨_, (holds_append.mp hp.holds).1.loopEnd?_eq hbody hnohalt⟩

/-- The scan that passes over a loop of the code does not leave the code. -/
theorem Proper.loopEnd_lt (hp : p.Proper w) {i j : Nat} (hi : i < entry + w.length)
    (hend : p.loopEnd? i = some j) : j < entry + w.length := by
  obtain ⟨body, -, hnohalt, hheld, rfl⟩ := loopEnd?_eq_some_iff.mp hend
  by_contra hpast
  -- Otherwise the `halt` behind the code stands inside the loop or is its end.
  have hlength : entry + w.length < i + 1 + (body ++ [Opcode.loopEnd.byte]).length := by
    simp only [List.length_append, List.length_singleton]
    omega
  obtain ⟨u, b, v, hsplit, -, hb⟩ := hheld.split (by omega : i + 1 ≤ entry + w.length) hlength
  obtain rfl : Opcode.halt.byte = b := by simpa [hp.get?_halt] using hb
  have hmem : Opcode.halt.byte ∈ body ++ [Opcode.loopEnd.byte] := by simp [hsplit]
  rcases List.mem_append.mp hmem with hbody | hlast
  · exact hnohalt hbody
  · exact absurd (List.mem_singleton.mp hlast) (by decide)

/-- Balanced instructions without `halt` are the code of the program that frames them. -/
theorem proper_ofOpcodes {ops : List Opcode} (hops : Opcode.halt ∉ ops)
    (hbalanced : Balanced Opcode.bracket? ops) : (ofOpcodes ops).Proper (ops.map Opcode.byte) where
  framed := ⟨[], by rw [toList_bytes_ofOpcodes, List.append_assoc]⟩
  known b hb := by
    obtain ⟨op, hop, rfl⟩ := List.mem_map.mp hb
    exact byte_le_of_ne_halt (fun h => hops (h ▸ hop))
  balanced := balanced_map_byte_iff.mpr hbalanced

/-- A framed list of instructions without `halt` is well formed exactly when it balances. -/
theorem wellFormed_ofOpcodes_iff {ops : List Opcode} (hops : Opcode.halt ∉ ops) :
    (ofOpcodes ops).WellFormed ↔ Balanced Opcode.bracket? ops := by
  refine ⟨fun h => ?_, fun h => ⟨_, proper_ofOpcodes hops h⟩⟩
  obtain ⟨w, ⟨rest, hframed⟩, hw, hbal⟩ := h
  rw [toList_bytes_ofOpcodes, List.append_assoc] at hframed
  have hcode := List.append_cancel_left hframed
  have hnohalt : Opcode.halt.byte ∉ ops.map Opcode.byte := by rwa [byte_mem_map_iff]
  rw [← balanced_map_byte_iff,
    ((List.append_cons_inj_of_notMem hnohalt List.not_mem_nil).mp hcode).1]
  exact hbal

end Program

namespace Machine

variable {κ : Type} [Console κ] {p : Program} {w : List UInt8} {m m' : Machine} {c c' : κ}

/-- The stack is in step with the brackets, and the instruction pointer has not left the code. -/
def InCode (p : Program) (w : List UInt8) (m : Machine) : Prop :=
  StackOpen p m ∧ m.ip ≤ Program.entry + w.length

/-- A machine that is rewound stands at the start of the code. -/
theorem inCode_rewind (p : Program) (w : List UInt8) (m : Machine) : InCode p w m.rewind :=
  ⟨stackOpen_rewind p m, Nat.le_add_right _ _⟩

/-- A position that steps reach is not before the first instruction. -/
theorem StackOpen.entry_le (h : StackOpen p m) : Program.entry ≤ m.ip := by
  obtain ⟨v, -, hip, -⟩ := h
  omega

/-- In the code every byte is fetched, and `halt` only at its end. -/
theorem InCode.exists_fetch (hp : p.Proper w) (h : InCode p w m) :
    ∃ op, m.fetch p = .ok op ∧ (op = .halt ↔ m.ip = Program.entry + w.length) := by
  by_cases hend : m.ip = Program.entry + w.length
  · refine ⟨.halt, fetch_eq_ok_iff.mpr ⟨hp.hasHeader, ?_⟩, by simp [hend]⟩
    rw [hend, hp.get?_halt]
  · have hlt : m.ip < Program.entry + w.length := by
      have := h.2
      omega
    obtain ⟨u, b, v, hsplit, -, hb⟩ := hp.split h.1.entry_le hlt
    obtain ⟨op, hop, rfl⟩ := Program.exists_opcode_of_le (hp.known b (by simp [hsplit]))
    exact ⟨op, fetch_eq_ok_iff.mpr ⟨hp.hasHeader, hb⟩, by simp [hop, hend]⟩

/-- An instruction other than `halt` is fetched before the end of the code. -/
theorem InCode.lt_of_fetch (hp : p.Proper w) (h : InCode p w m) {op : Opcode}
    (hfetch : m.fetch p = .ok op) (hop : op ≠ .halt) : m.ip < Program.entry + w.length := by
  obtain ⟨op', hfetch', hiff⟩ := h.exists_fetch hp
  obtain rfl : op = op' := by simpa [hfetch] using hfetch'
  have hne : m.ip ≠ Program.entry + w.length := fun heq => hop (hiff.mpr heq)
  have := h.2
  omega

/-- Every move through a proper program stays in the code. -/
theorem inCode_of_flow (hp : p.Proper w) (hflow : Flow p m m') (h : InCode p w m) : InCode p w m' := by
  refine ⟨stackOpen_of_flow hflow h.1, ?_⟩
  cases hflow with
  | plain hfetch hop hhalt hip hstack =>
    have := h.lt_of_fetch hp hfetch hhalt
    omega
  | skip hfetch hcell hend hip hstack =>
    have := hp.loopEnd_lt (h.lt_of_fetch hp hfetch (by simp)) hend
    omega
  | enter hfetch hcell hip hstack =>
    have := h.lt_of_fetch hp hfetch (by simp)
    omega
  | leave hfetch hcell hip hstack =>
    have := h.lt_of_fetch hp hfetch (by simp)
    omega
  | @back start outer hfetch hcell hopened hip hstack =>
    have hstart := (h.1.mem_iff start).mp (by simp [hopened])
    have := h.2
    omega

/-- The code is not left in any state that steps reach. -/
theorem inCode_of_reachable (hp : p.Proper w)
    (hreach : ReflTransGen (Succeeds p) (m.rewind, c) (m', c')) : InCode p w m' :=
  invariant_of_flow (inCode_of_flow hp) hreach (inCode_rewind p w m)

/-- In the code of a proper program no step blames the program. -/
theorem InCode.not_blamesProgram (hp : p.Proper w) (h : InCode p w m) {e : RuntimeError}
    (hstep : (step p m c).1 = .error e) : ¬ e.BlamesProgram := by
  obtain ⟨op, hfetch, -⟩ := h.exists_fetch hp
  have hfail : step p m c = (.error e, (step p m c).2.1, (step p m c).2.2) := Prod.ext hstep rfl
  rcases step_eq_error_iff.mp hfail with ⟨hnone, -⟩ | ⟨op', hfetch', hop', hexec⟩
  · simp [hfetch] at hnone
  · obtain ⟨hrefused, -⟩ := refused_of_exec hexec
    have hlt := h.lt_of_fetch hp hfetch' hop'
    have hget := (fetch_eq_ok_iff.mp hfetch').2
    cases hrefused with
    | underflow => exact id
    | noCharacter => exact id
    | console => exact id
    | unclosedLoop hcell hend =>
      obtain ⟨j, hj⟩ := hp.exists_loopEnd h.1.entry_le hlt hget
      rw [show p.loopEnd? m.ip = none from hend] at hj
      contradiction
    | strayLoopEnd hopen =>
      -- With no loop open, what was passed is balanced, and so is the code it starts.
      obtain ⟨v, hv, hip, hleaves⟩ := h.1
      rw [show m.loopStack = [] from hopen] at hleaves
      obtain ⟨u, b, rest, hsplit, hu, hb⟩ := hp.split h.1.entry_le hlt
      have huv : u = v := by
        have hheld := (Program.holds_append.mp hp.holds).1
        rw [hsplit] at hheld
        have hlength : u.length = v.length := by omega
        exact ((Program.holds_append.mp hheld).1.isPrefix hv (by omega)).eq_of_length hlength
      obtain rfl : Opcode.loopEnd.byte = b := by simpa [hget] using hb
      have hdepth := balanced_iff_depth?.mp hp.balanced
      rw [hsplit, huv] at hdepth
      exact absurd hdepth (not_closing_of_depth? hleaves rfl)

/-- A proper program halts behind its code, with every loop closed. -/
theorem InCode.of_halted (hp : p.Proper w) (h : InCode p w m)
    (hstep : (step p m c).1 = .ok .halted) :
    m.ip = Program.entry + w.length ∧ m.loopStack = [] := by
  have hhalt : step p m c = (.ok .halted, (step p m c).2.1, (step p m c).2.2) := Prod.ext hstep rfl
  obtain ⟨hfetch, -, -⟩ := step_eq_halted_iff.mp hhalt
  obtain ⟨op, hfetch', hiff⟩ := h.exists_fetch hp
  obtain rfl : Opcode.halt = op := by simpa [hfetch] using hfetch'
  have hend := hiff.mp rfl
  obtain ⟨v, hv, hip, hleaves⟩ := h.1
  have hlength : v.length = w.length := by omega
  have hvw := (hv.isPrefix (Program.holds_append.mp hp.holds).1 (by omega)).eq_of_length hlength
  have hdepth := hleaves.depth?_eq
  rw [hvw, balanced_iff_depth?.mp hp.balanced] at hdepth
  have hnil : m.loopStack.length = 0 := by simpa using hdepth.symm
  exact ⟨hend, List.eq_nil_of_length_eq_zero hnil⟩

/-- A machine on a proper program is inside the code, goes on without blaming the program, and
halts behind the code only. -/
structure OnTrack (p : Program) (w : List UInt8) (m : Machine) (c : κ) : Prop where
  low : Program.entry ≤ m.ip
  high : m.ip ≤ Program.entry + w.length
  blameless : ∀ e, (step p m c).1 = .error e → ¬ e.BlamesProgram
  halted : (step p m c).1 = .ok .halted → m.ip = Program.entry + w.length ∧ m.loopStack = []

/-- A machine in the code is on track. -/
theorem InCode.onTrack (hp : p.Proper w) (h : InCode p w m) (c : κ) : OnTrack p w m c :=
  ⟨h.1.entry_le, h.2, fun _ => h.not_blamesProgram hp, h.of_halted hp⟩

/-- The machine at the end of a run is where its last step found it, up to the step counter. -/
theorem run_ends_in_code (hp : p.Proper w) {fuel : Nat} {r : Except RuntimeError Unit}
    (hrun : run fuel p m c = some (r, m', c')) :
    (∀ e, r = .error e → ¬ e.BlamesProgram) ∧ Program.entry ≤ m'.ip ∧
      m'.ip ≤ Program.entry + w.length ∧
        (r = .ok () → m'.ip = Program.entry + w.length ∧ m'.loopStack = []) := by
  obtain ⟨stopped, c₀, hiterate, rfl, -⟩ := (run_eq_some_iff hp.hasHeader).mp ⟨fuel, hrun⟩
  obtain ⟨⟨m₀, c₁⟩, hreach, hstop⟩ := iterate_eq_some_iff.mp hiterate
  have hcode := inCode_of_reachable hp (reachable_of_continues hreach)
  have htrack := hcode.onTrack hp c₁
  generalize Console.flush c₀ = flushed
  cases hstop with
  | halted hstep =>
    have hhalted := htrack.halted (congrArg Prod.fst hstep)
    obtain ⟨-, rfl, -⟩ := step_eq_halted_iff.mp hstep
    refine ⟨fun e he => ?_, htrack.low, htrack.high, fun _ => hhalted⟩
    cases hflush : flushed.1 with
    | ok => simp [settle, hflush] at he
    | error cause =>
      obtain rfl : RuntimeError.io cause = e := by simpa [settle, hflush] using he
      exact id
  | @failed e t hstep =>
    have hblame := htrack.blameless e (congrArg Prod.fst hstep)
    have hip : m'.ip = m₀.ip := by
      rcases step_eq_error_iff.mp hstep with ⟨-, rfl, -⟩ | ⟨op, -, -, hexec⟩
      · rfl
      · rw [(refused_of_exec hexec).2]
        rfl
    refine ⟨fun e' he => ?_, hip ▸ htrack.low, hip ▸ htrack.high, fun h => by simp [settle] at h⟩
    obtain rfl : e = e' := by simpa [settle] using he
    exact hblame

/-- No step of a run of a well-formed program blames the program, whatever the machine held before;
and a source text passes the bracket check exactly when it compiles to a well-formed program. -/
theorem wellFormed_never_blamed :
    (∀ (p : Program) (w : List UInt8), p.Proper w → ∀ (m : Machine) (c : κ),
      (∀ m' c', ReflTransGen (Succeeds p) (m.rewind, c) (m', c') → OnTrack p w m' c') ∧
        ∀ fuel r m' c', run fuel p m c = some (r, m', c') →
          (∀ e, r = .error e → ¬ e.BlamesProgram) ∧ Program.entry ≤ m'.ip ∧
            m'.ip ≤ Program.entry + w.length ∧
              (r = .ok () → m'.ip = Program.entry + w.length ∧ m'.loopStack = [])) ∧
      ∀ source : String,
        (checkBalanced source = .ok () → (compile source).WellFormed) ∧
          ∀ e, checkBalanced source = .error e → ¬ (compile source).WellFormed := by
  refine ⟨fun p w hp m c => ⟨fun m' c' hreach => ?_, fun fuel r m' c' hrun => ?_⟩, fun source => ?_⟩
  · exact (inCode_of_reachable hp hreach).onTrack hp c'
  · exact run_ends_in_code hp hrun
  · have hiff : checkBalanced source = .ok () ↔ (compile source).WellFormed := by
      rw [checkBalanced_eq_ok_iff, compile_eq,
        Program.wellFormed_ofOpcodes_iff (halt_not_mem_instructions source)]
    refine ⟨hiff.mp, fun e he hwell => ?_⟩
    rw [hiff.mpr hwell] at he
    contradiction

/-- Bytes behind the `halt` and a stack left by an earlier run make no difference. -/
theorem wellFormed_never_blamed_loop :
    (Program.ofBody [2, 6, 3, 7, 8, 7]).Proper [2, 6, 3, 7] ∧
      run 5 (.ofBody [2, 6, 3, 7, 8, 7]) { new ⟨1, 1⟩ with ip := 40, loopStack := [17] }
          ({} : Terminal) = some (.ok (), ⟨⟨#[0], 1, 0⟩, 0, 20, [], 4⟩, {}) ∧
        Program.entry ≤ 20 ∧ 20 ≤ Program.entry + [2, 6, 3, 7].length := by
  have hproper : (Program.ofBody [2, 6, 3, 7, 8, 7]).Proper [2, 6, 3, 7] :=
    ⟨⟨[7], rfl⟩, by simp, balanced_iff_depth?.mpr rfl⟩
  have hrun : run 5 (.ofBody [2, 6, 3, 7, 8, 7]) { new ⟨1, 1⟩ with ip := 40, loopStack := [17] }
      ({} : Terminal) = some (.ok (), ⟨⟨#[0], 1, 0⟩, 0, 20, [], 4⟩, {}) := by cbv
  obtain ⟨-, hlow, hhigh, -⟩ := (wellFormed_never_blamed.1 _ _ hproper _ _).2 _ _ _ _ hrun
  exact ⟨hproper, hrun, hlow, hhigh⟩

end Machine

end TapeMachine
