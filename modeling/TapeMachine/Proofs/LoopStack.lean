import Mathlib.Data.List.Permutation
import Mathlib.Data.List.Sort
import TapeMachine.Proofs.Execution
import TapeMachine.Proofs.LoopScan

/-!
# The stack of open loops

While a program runs, the stack holds the loop starts that the bytes before the instruction pointer
leave open. The bytes may be anything: nothing is assumed about their balance, about `halt` or about
bytes that stand for no instruction. The invariant survives jumps back, since what a word leaves open
is also left open by the word cut off behind its innermost open bracket.
-/

namespace TapeMachine

open Relation (ReflTransGen)

/-- The loop start at `i` that no loop end before position `n` closes. -/
def Program.Unclosed (p : Program) (n i : Nat) : Prop :=
  p.get? i = some Opcode.loopStart.byte ∧ ¬ ∃ j, j < n ∧ p.Matched i j

namespace Machine

variable {κ : Type} [Console κ] {p : Program} {m m' : Machine} {c c' : κ}

/-- The bytes from the first instruction to the instruction pointer leave the stacked loops open. -/
def StackOpen (p : Program) (m : Machine) : Prop :=
  ∃ w, p.Holds Program.entry w ∧ m.ip = Program.entry + w.length ∧
    LeavesOpen bracketOfByte? Program.entry m.loopStack w

/-- A rewound machine has passed no byte and has no loop open. -/
theorem stackOpen_rewind (p : Program) (m : Machine) : StackOpen p m.rewind :=
  ⟨[], Program.holds_nil, rfl, .nil⟩

/-- The byte of a fetched instruction stands behind the bytes that were passed. -/
theorem holds_snoc_of_fetch {w : List UInt8} {op : Opcode} (hw : p.Holds Program.entry w)
    (hip : m.ip = Program.entry + w.length) (hfetch : m.fetch p = .ok op) :
    p.Holds Program.entry (w ++ [op.byte]) := by
  refine Program.holds_append.mpr ⟨hw, Program.holds_cons.mpr ⟨?_, Program.holds_nil⟩⟩
  rw [← hip]
  exact (fetch_eq_ok_iff.mp hfetch).2

/-- Every move through the program keeps the stack in step with the brackets. -/
theorem stackOpen_of_flow (hflow : Flow p m m') (h : StackOpen p m) : StackOpen p m' := by
  obtain ⟨w, hw, hip, hopen⟩ := h
  cases hflow with
  | @plain op hfetch hop hhalt hip' hstack =>
    refine ⟨w ++ [op.byte], holds_snoc_of_fetch hw hip hfetch, by simp [hip', hip, Nat.add_assoc], ?_⟩
    rw [hstack]
    exact hopen.append (.plain (by rw [bracketOfByte?_byte, hop]) .nil)
  | skip hfetch hcell hend hip' hstack =>
    obtain ⟨body, hbody, -, hheld, rfl⟩ := Program.loopEnd?_eq_some_iff.mp hend
    -- The whole loop, brackets included, is balanced text behind what was passed.
    refine ⟨w ++ Opcode.loopStart.byte :: (body ++ [Opcode.loopEnd.byte]), ?_, ?_, ?_⟩
    · refine Program.holds_append.mpr ⟨hw, Program.holds_cons.mpr ⟨?_, ?_⟩⟩
      · rw [← hip]
        exact (fetch_eq_ok_iff.mp hfetch).2
      · rw [← hip]
        exact hheld
    · simp only [hip', hip, List.length_append, List.length_cons, List.length_nil]
      omega
    · rw [hstack]
      exact hopen.append (.loop rfl hbody rfl .nil)
  | enter hfetch hcell hip' hstack =>
    refine ⟨w ++ [Opcode.loopStart.byte], holds_snoc_of_fetch hw hip hfetch,
      by simp [hip', hip, Nat.add_assoc], ?_⟩
    rw [hstack, hip]
    exact hopen.push rfl
  | leave hfetch hcell hip' hstack =>
    refine ⟨w ++ [Opcode.loopEnd.byte], holds_snoc_of_fetch hw hip hfetch,
      by simp [hip', hip, Nat.add_assoc], ?_⟩
    rw [hstack] at hopen
    exact hopen.pop rfl
  | back hfetch hcell hopened hip' hstack =>
    rw [hopened] at hopen
    obtain ⟨u, a, v, rfl, ha, rfl, hv, hu⟩ := hopen
    refine ⟨u ++ [a], ?_, by simp [hip', Nat.add_assoc], ?_⟩
    · rw [List.append_cons] at hw
      exact (Program.holds_append.mp hw).1
    · rw [hstack, hopened]
      exact hu.push ha

/-- The stack is in step with the brackets in every state that steps reach. -/
theorem stackOpen_of_reachable (h : ReflTransGen (Succeeds p) (m.rewind, c) (m', c')) :
    StackOpen p m' :=
  invariant_of_flow stackOpen_of_flow h (stackOpen_rewind p m)

/-- The loop starts on the stack are those before the instruction pointer that nothing closes there. -/
theorem StackOpen.mem_iff (h : StackOpen p m) (i : Nat) :
    i ∈ m.loopStack ↔ Program.entry ≤ i ∧ i < m.ip ∧ p.Unclosed m.ip i := by
  obtain ⟨w, hw, hip, hopen⟩ := h
  rw [hip]
  refine ⟨fun hi => ?_, fun hi => ?_⟩
  · obtain ⟨hlow, hhigh⟩ := hopen.pairwise.2 i hi
    obtain ⟨u, a, v, d, rfl, ha, rfl, hd⟩ := hopen.split_of_mem hi
    refine ⟨hlow, hhigh, ?_, ?_⟩
    · rw [hw.get?, bracketOfByte?_eq_opening.mp ha]
    · intro hclosed
      obtain ⟨j, hj, hmatched⟩ := hclosed
      obtain ⟨u', body, rest, heq, hi', hbody⟩ := hmatched.split hw hlow hj
      obtain ⟨rfl, htail⟩ := List.append_inj heq (by omega)
      obtain ⟨-, rfl⟩ := List.cons_eq_cons.mp htail
      exact not_closing_of_depth? hbody rfl hd
  · obtain ⟨hlow, hhigh, hget, hunclosed⟩ := hi
    obtain ⟨u, a, v, rfl, rfl, ha⟩ := hw.split hlow hhigh
    obtain rfl : Opcode.loopStart.byte = a := by simpa [hget] using ha
    apply hopen.mem_of_split rfl
    intro body b rest hv hbody hb
    subst hv
    obtain rfl := bracketOfByte?_eq_closing.mp hb
    refine hunclosed ⟨_, ?_, hw.matched hbody⟩
    simp only [List.length_append, List.length_cons]
    omega

/-- Every loop end before the instruction pointer has a loop start before it. -/
theorem StackOpen.exists_matched (h : StackOpen p m) {j : Nat} (hlow : Program.entry ≤ j)
    (hhigh : j < m.ip) (hget : p.get? j = some Opcode.loopEnd.byte) :
    ∃ i, Program.entry ≤ i ∧ p.Matched i j := by
  obtain ⟨w, hw, hip, hopen⟩ := h
  rw [hip] at hhigh
  obtain ⟨u, b, v, rfl, rfl, hb⟩ := hw.split hlow hhigh
  obtain rfl : Opcode.loopEnd.byte = b := by simpa [hget] using hb
  obtain ⟨front, a, body, rfl, ha, hbody⟩ := hopen.exists_opening rfl
  obtain rfl := bracketOfByte?_eq_opening.mp ha
  rw [List.append_assoc, List.cons_append] at hw
  refine ⟨Program.entry + front.length, Nat.le_add_right _ _, ?_⟩
  have hmatched := hw.matched hbody
  rwa [show Program.entry + front.length + body.length + 1 = Program.entry +
    (front ++ Opcode.loopStart.byte :: body).length by simp; omega] at hmatched

/-- At a loop end, the innermost open loop is the one that the loop end closes. -/
theorem StackOpen.matched_iff (h : StackOpen p m) (hfetch : m.fetch p = .ok .loopEnd) (i : Nat) :
    (Program.entry ≤ i ∧ p.Matched i m.ip) ↔ m.loopStack.head? = some i := by
  obtain ⟨w, hw, hip, hopen⟩ := h
  have hlong := holds_snoc_of_fetch hw hip hfetch
  refine ⟨fun hmatch => ?_, fun hhead => ?_⟩
  · obtain ⟨hlow, hmatched⟩ := hmatch
    rw [hip] at hmatched
    obtain ⟨u, body, rfl, rfl, hbody⟩ := hmatched.split_last hw hlow
    cases hstack : m.loopStack with
    | nil =>
      -- A balanced word has no place for an opening bracket that it does not close.
      rw [hstack] at hopen
      obtain ⟨body', b, rest, rfl, hbody', hb⟩ := Balanced.exists_closing hopen rfl
      exact absurd (balanced_iff_depth?.mp hbody) (not_closing_of_depth? hbody' hb)
    | cons k outer =>
      rw [hstack] at hopen
      obtain ⟨u', a, v, heq, ha, rfl, hv, -⟩ := hopen
      rw [opening_unique heq rfl ha hbody hv]
      rfl
  · obtain ⟨outer, hstack⟩ := List.head?_eq_some_iff.mp hhead
    rw [hstack] at hopen
    obtain ⟨u, a, v, rfl, ha, rfl, hv, -⟩ := hopen
    obtain rfl := bracketOfByte?_eq_opening.mp ha
    refine ⟨Nat.le_add_right _ _, ?_⟩
    rw [List.append_assoc, List.cons_append] at hlong
    have hmatched := hlong.matched hv
    rwa [show Program.entry + u.length + v.length + 1 = m.ip by
      rw [hip]; simp; omega] at hmatched

/-- A loop end is refused for want of a loop exactly when no loop is open. -/
theorem step_strayLoopEnd_iff (ip : Nat) :
    (step p m c).1 = .error (.corrupted ip .strayLoopEnd) ↔
      ip = m.ip ∧ m.fetch p = .ok .loopEnd ∧ m.loopStack = [] := by
  refine ⟨fun h => ?_, fun h => ?_⟩
  · obtain ⟨m', c', hstep⟩ : ∃ m' c', step p m c = (.error (.corrupted ip .strayLoopEnd), m', c') :=
      ⟨_, _, Prod.ext h rfl⟩
    rcases step_eq_error_iff.mp hstep with ⟨hfetch, -⟩ | ⟨op, hfetch, -, hexec⟩
    · rcases fetch_eq_error hfetch with ⟨-, he⟩ | ⟨-, he⟩ | ⟨_, -, -, he⟩ <;> simp at he
    · obtain ⟨hrefused, -⟩ := refused_of_exec hexec
      cases hrefused with
      | strayLoopEnd hopen => exact ⟨rfl, hfetch, hopen⟩
  · obtain ⟨rfl, hfetch, hstack⟩ := h
    have hcount : m.count.loopStack = [] := hstack
    have hexec : exec p .loopEnd m.count c = (.error (.corrupted m.ip .strayLoopEnd), m.count, c) := by
      simp only [exec, hcount]
      rfl
    rw [step_eq_error_iff.mpr (.inr ⟨_, hfetch, by simp, hexec⟩)]

open Classical in
/-- The stack of a machine is right about the loops of a program, and so is every loop end. -/
structure LoopsTracked (p : Program) (m : Machine) (c : κ) : Prop where
  /-- Bottom first, the stack lists the loop starts before the pointer that nothing closes there. -/
  stack : m.loopStack.reverse =
    (List.range' Program.entry (m.ip - Program.entry)).filter fun i => p.Unclosed m.ip i
  /-- No loop end before the pointer lacks its loop start. -/
  closed : ∀ j, Program.entry ≤ j → j < m.ip → p.get? j = some Opcode.loopEnd.byte →
    ∃ i, Program.entry ≤ i ∧ p.Matched i j
  increasing : m.loopStack.reverse.Pairwise (· < ·)
  below : ∀ i ∈ m.loopStack, i < m.ip
  /-- A loop end that goes back lands right behind the one loop start that it matches. -/
  back : ∀ m' c', m.fetch p = .ok .loopEnd → m.currentCell ≠ 0 →
    step p m c = (.ok .running, m', c') →
    ∃ i, (∀ k, Program.entry ≤ k ∧ p.Matched k m.ip ↔ k = i) ∧ m'.ip = i + 1
  /-- A loop end is called stray exactly when no loop start before it matches. -/
  stray : ∀ ip, (step p m c).1 = .error (.corrupted ip .strayLoopEnd) ↔
    ip = m.ip ∧ m.fetch p = .ok .loopEnd ∧ ¬ ∃ i, Program.entry ≤ i ∧ p.Matched i m.ip

/-- Whatever bytes a program consists of, every state that successful steps reach from a rewound
machine keeps exactly the open loops on its stack. -/
theorem loopsTracked_of_reachable (hreach : ReflTransGen (Succeeds p) (m.rewind, c) (m', c')) :
    LoopsTracked p m' c' := by
  have h := stackOpen_of_reachable hreach
  obtain ⟨hsorted, hbounds⟩ : m'.loopStack.reverse.Pairwise (· < ·) ∧ ∀ i ∈ m'.loopStack, i < m'.ip := by
    obtain ⟨w, -, hip, hopen⟩ := h
    rw [hip, List.pairwise_reverse]
    exact ⟨hopen.pairwise.1, fun i hi => (hopen.pairwise.2 i hi).2⟩
  refine ⟨?_, fun j => h.exists_matched, hsorted, hbounds, ?_, ?_⟩
  · -- Both lists increase and have the same members.
    refine hsorted.eq_of_mem_iff ((List.pairwise_lt_range' 1).filter _) fun i => ?_
    simp only [List.mem_reverse, h.mem_iff, List.mem_filter, List.mem_range'_1, decide_eq_true_eq]
    refine ⟨fun h => ⟨?_, h.2.2⟩, fun h => ⟨?_, ?_, h.2⟩⟩
    all_goals omega
  · intro m'' c'' hfetch hcell hstep
    cases flow_of_step hstep with
    | plain hfetch' hop =>
      rw [← Except.ok.inj (hfetch.symm.trans hfetch')] at hop
      contradiction
    | skip hfetch' => simp [hfetch] at hfetch'
    | enter hfetch' => simp [hfetch] at hfetch'
    | leave _ hzero => contradiction
    | @back start outer _ _ hopened hip _ =>
      refine ⟨start, fun k => ?_, hip⟩
      rw [h.matched_iff hfetch, hopened]
      simp [eq_comm]
  · intro ip
    rw [step_strayLoopEnd_iff]
    refine and_congr_right fun _ => and_congr_right fun hfetch => ?_
    simp only [h.matched_iff hfetch]
    cases m'.loopStack <;> simp

/-- A loop over an unknown byte is passed over, and the loop that is entered behind it has no end. -/
theorem loopsTracked_unclosed :
    ReflTransGen (Succeeds (.ofBody [6, 99, 7, 2, 6]))
        ((new ⟨1, 1⟩).rewind, ({} : Terminal)) (⟨⟨#[1], 1, 0⟩, 0, 21, [20], 3⟩, {}) ∧
      LoopsTracked (.ofBody [6, 99, 7, 2, 6]) ⟨⟨#[1], 1, 0⟩, 0, 21, [20], 3⟩ ({} : Terminal) := by
  have hskip : Succeeds (.ofBody [6, 99, 7, 2, 6]) ((new ⟨1, 1⟩).rewind, ({} : Terminal))
      (⟨⟨#[0], 1, 0⟩, 0, 19, [], 1⟩, {}) := ⟨.running, by cbv⟩
  have hadd : Succeeds (.ofBody [6, 99, 7, 2, 6]) (⟨⟨#[0], 1, 0⟩, 0, 19, [], 1⟩, ({} : Terminal))
      (⟨⟨#[1], 1, 0⟩, 0, 20, [], 2⟩, {}) := ⟨.running, by cbv⟩
  have henter : Succeeds (.ofBody [6, 99, 7, 2, 6]) (⟨⟨#[1], 1, 0⟩, 0, 20, [], 2⟩, ({} : Terminal))
      (⟨⟨#[1], 1, 0⟩, 0, 21, [20], 3⟩, {}) := ⟨.running, by cbv⟩
  have hreach := ((ReflTransGen.single hskip).tail hadd).tail henter
  exact ⟨hreach, loopsTracked_of_reachable hreach⟩

end Machine

end TapeMachine
