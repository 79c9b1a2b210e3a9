import TapeMachine.Proofs.LoopScan

/-!
# Where a loop ends, by counting

The scan that passes over a loop keeps the loops inside it on the stack of open loops. What it comes to
can be said by counting alone. From the loop start on there are more loop starts than loop ends up to
the end of the loop, and there as many of both for the first time. The scan stops there, unless it has met
a `halt` before, and in any case it leaves the stack as it was. Bytes that stand for no instruction could
as well be other ones.
-/

namespace TapeMachine

namespace Program

variable {p q : Program} {start i j : Nat} {w : List UInt8}

/-- The bytes from one position to another, both included. -/
def between (p : Program) (i j : Nat) : List UInt8 := (p.bytes.toList.drop i).take (j + 1 - i)

/-- From one position to another there are as many loop starts as loop ends. -/
def Level (p : Program) (i j : Nat) : Prop :=
  (p.between i j).count Opcode.loopStart.byte = (p.between i j).count Opcode.loopEnd.byte

instance (p : Program) (i j : Nat) : Decidable (p.Level i j) :=
  inferInstanceAs (Decidable (_ = _))

/-- The first position behind a loop start up to which there are as many loop starts as loop ends, with
no `halt` in between. -/
structure LoopCloses (p : Program) (start j : Nat) : Prop where
  behind : start < j
  inside : j < p.size
  level : p.Level start j
  first : ∀ k < j, start < k → ¬ p.Level start k
  running : ∀ k < j, start < k → p.get? k ≠ some Opcode.halt.byte

/-- A word that is held is what stands between its first position and its last. -/
theorem between_of_holds (h : p.Holds i w) (hlength : i + w.length = j + 1) : p.between i j = w := by
  rw [between, show j + 1 - i = w.length by omega]
  exact (List.prefix_iff_eq_take.mp h).symm

/-- The bytes up to a position in the program are held, and none of them is missing. -/
theorem holds_between (hi : i ≤ j) (hj : j < p.size) :
    p.Holds i (p.between i j) ∧ i + (p.between i j).length = j + 1 := by
  refine ⟨List.take_prefix _ _, ?_⟩
  rw [between, List.length_take, List.length_drop, Array.length_toList]
  rw [size] at hj
  omega

/-- Behind a loop start it gets level where one loop end more is counted than loop starts. -/
theorem level_iff_countSide (h : p.Holds start (Opcode.loopStart.byte :: w)) (hj : j = start + w.length) :
    p.Level start j ↔ countSide bracketOfByte? .closing w = countSide bracketOfByte? .opening w + 1 := by
  have hbetween : p.between start j = Opcode.loopStart.byte :: w := by
    apply between_of_holds h
    rw [List.length_cons]
    omega
  rw [Level, hbetween, countSide_eq_count bracketOfByte?_eq_closing,
    countSide_eq_count bracketOfByte?_eq_opening, List.count_cons_self,
    List.count_cons_of_ne (by decide)]
  exact eq_comm

/-- Balanced bytes without `halt` and a loop end behind them close the loop start before them. -/
theorem loopCloses_of_body (hstart : p.get? start = some Opcode.loopStart.byte) {body : List UInt8}
    (hbody : Balanced bracketOfByte? body) (hno : Opcode.halt.byte ∉ body)
    (hheld : p.Holds (start + 1) (body ++ [Opcode.loopEnd.byte])) :
    p.LoopCloses start (start + body.length + 1) := by
  have hwhole := holds_cons.mpr ⟨hstart, hheld⟩
  have hlength := hwhole.length_le
  simp only [List.length_cons, List.length_append, List.length_nil] at hlength
  obtain ⟨hnever, hlast⟩ := balanced_snoc_iff.mp ⟨hbody, bracketOfByte?_byte .loopEnd⟩
  refine ⟨by omega, by omega, ?_, fun k hk hbehind => ?_, fun k hk hbehind hget => ?_⟩
  · rw [level_iff_countSide hwhole (by simp; omega)]
    exact hlast
  · have hpart : Opcode.loopStart.byte :: body.take (k - start) <+:
        Opcode.loopStart.byte :: (body ++ [Opcode.loopEnd.byte]) :=
      List.cons_prefix_cons.mpr ⟨rfl, (List.take_prefix _ _).trans (List.prefix_append _ _)⟩
    rw [level_iff_countSide (hpart.trans hwhole) (by simp; omega)]
    exact hnever _ (List.take_prefix _ _)
  · obtain ⟨u, b, v, rfl, rfl, hb⟩ := (holds_append.mp hheld).1.split hbehind (by omega)
    obtain rfl := Option.some.inj (hget.symm.trans hb)
    simp at hno

/-- Where the counts close a loop start, the bytes in between balance and a loop end stands there. -/
theorem LoopCloses.exists_body (h : p.LoopCloses start j)
    (hstart : p.get? start = some Opcode.loopStart.byte) :
    ∃ body, Balanced bracketOfByte? body ∧ Opcode.halt.byte ∉ body ∧
      p.Holds (start + 1) (body ++ [Opcode.loopEnd.byte]) ∧ j = start + body.length + 1 := by
  have hbehind := h.behind
  obtain ⟨hheld, hlength⟩ := holds_between (Nat.succ_le_of_lt hbehind) h.inside
  rcases List.eq_nil_or_concat (p.between (start + 1) j) with hnil | ⟨body, b, hbetween⟩
  · rw [hnil, List.length_nil] at hlength
    omega
  · rw [hbetween, List.concat_eq_append] at hheld hlength
    rw [List.length_append, List.length_singleton] at hlength
    have hwhole := holds_cons.mpr ⟨hstart, hheld⟩
    have hnever (u : List UInt8) (hu : u <+: body) :
        countSide bracketOfByte? .closing u ≠ countSide bracketOfByte? .opening u + 1 := by
      cases u with
      | nil => simp
      | cons a u =>
        have hpart : Opcode.loopStart.byte :: a :: u <+: Opcode.loopStart.byte :: (body ++ [b]) :=
          List.cons_prefix_cons.mpr ⟨rfl, hu.trans (List.prefix_append _ _)⟩
        have hle := hu.length_le
        rw [List.length_cons] at hle
        rw [Ne, ← level_iff_countSide (hpart.trans hwhole) rfl, List.length_cons]
        exact h.first _ (by omega) (by omega)
    have hlast := (level_iff_countSide hwhole (by simp; omega)).mp h.level
    obtain ⟨hbody, hb⟩ := balanced_snoc_iff.mpr ⟨hnever, hlast⟩
    obtain rfl := bracketOfByte?_eq_closing.mp hb
    refine ⟨body, hbody, fun hhalt => ?_, hheld, by omega⟩
    obtain ⟨u, v, rfl⟩ := List.append_of_mem hhalt
    rw [List.length_append, List.length_cons] at hlength
    exact h.running _ (by omega) (by omega) (holds_append.mp hheld).1.get?

/-- Behind a loop start, the scan finds the position that the counts give. -/
theorem loopEnd?_eq_some_iff_loopCloses (hstart : p.get? start = some Opcode.loopStart.byte) :
    p.loopEnd? start = some j ↔ p.LoopCloses start j := by
  rw [loopEnd?_eq_some_iff]
  constructor
  · intro h
    obtain ⟨body, hbody, hno, hheld, rfl⟩ := h
    exact loopCloses_of_body hstart hbody hno hheld
  · intro h
    exact h.exists_body hstart

/-- The end of the bytes ends the scan, so it makes no difference how far it is allowed to go beyond. -/
theorem scanLoop_of_le {n ip d : Nat} (h : p.size - ip ≤ n) :
    p.scanLoop n ip d = p.scanLoop (p.size - ip) ip d := by
  apply Option.ext
  intro j
  rw [scanLoop_eq_some_iff, scanLoop_eq_some_iff]
  constructor
  · intro hends
    obtain ⟨w, -, hheld, hrest⟩ := hends
    have hlength := hheld.length_le
    rw [List.length_append, List.length_singleton] at hlength
    exact ⟨w, by omega, hheld, hrest⟩
  · intro hends
    obtain ⟨w, hlt, hrest⟩ := hends
    exact ⟨w, by omega, hrest⟩

/-- Behind a position, the second program is the first one with other bytes in place of some that stand
for no instruction, though with no new brackets and no new `halt`. -/
def Retouched (p q : Program) (start : Nat) : Prop :=
  ∀ i, start < i → q.get? i = p.get? i ∨
    ∃ b b', p.get? i = some b ∧ Opcode.ofByte? b = none ∧ q.get? i = some b' ∧
      bracketOfByte? b' = none ∧ b' ≠ Opcode.halt.byte

/-- The scan does not notice bytes that stand for no instruction. -/
theorem Retouched.scanLoop_eq (h : p.Retouched q start) {ip : Nat} (hip : start < ip) (n d : Nat) :
    q.scanLoop n ip d = p.scanLoop n ip d := by
  induction n generalizing ip d with
  | zero => rfl
  | succ n ih =>
    have hnext (d : Nat) := ih (Nat.lt_succ_of_lt hip) d
    rcases h ip hip with hsame | ⟨b, b', hb, hunknown, hb', hplain, hhalt⟩
    · simp only [scanLoop, hsame, hnext]
    · have hbracket : bracketOfByte? b = none := by rw [bracketOfByte?, hunknown, Option.bind_none]
      have hknown : b ≠ Opcode.halt.byte := by
        rintro rfl
        simp at hunknown
      rw [scanLoop_plain hb' hplain hhalt, scanLoop_plain hb hbracket hknown, hnext]

/-- Without an end for the loop start, the scan finds none. -/
theorem loopEnd?_eq_none (hstart : p.get? start = some Opcode.loopStart.byte)
    (h : ¬ ∃ j, p.LoopCloses start j) : p.loopEnd? start = none := by
  apply Option.eq_none_iff_forall_ne_some.mpr
  intro j hj
  exact h ⟨j, (loopEnd?_eq_some_iff_loopCloses hstart).mp hj⟩

/-- Programs that differ in bytes that stand for no instruction have their loop ends at the same places. -/
theorem Retouched.loopEnd?_eq (h : p.Retouched q start) : q.loopEnd? start = p.loopEnd? start := by
  let n := max (p.size - (start + 1)) (q.size - (start + 1))
  calc q.loopEnd? start
    _ = q.scanLoop n (start + 1) 0 := (scanLoop_of_le (Nat.le_max_right _ _)).symm
    _ = p.scanLoop n (start + 1) 0 := h.scanLoop_eq (Nat.lt_succ_self start) n 0
    _ = p.loopEnd? start := scanLoop_of_le (Nat.le_max_left _ _)

/-- The scan from a loop start, on any stack and whatever bytes the program consists of. It ends by
itself, with or without a bound on its way. If the loop starts and loop ends from there on get level, with
no `halt` before, it ends there, at a loop end, and the machine goes on from it; if not, the loop start
is reported as one without a loop end. The stack is as before in both cases, and bytes that stand for no
instruction do not matter. -/
theorem skipLoop_exact {κ : Type} [Console κ] {p : Program} {start : Nat}
    (hstart : p.get? start = some Opcode.loopStart.byte) (stack : List Nat) :
    (∀ n, p.size - (start + 1) ≤ n →
      p.skipFrom n start 1 (start :: stack) = p.skipLoop start stack) ∧
    (∀ j, p.LoopCloses start j →
      p.skipLoop start stack = (some j, stack) ∧ p.get? j = some Opcode.loopEnd.byte) ∧
    ((¬ ∃ j, p.LoopCloses start j) → p.skipLoop start stack = (none, stack)) ∧
    (∀ q, p.Retouched q start → q.skipLoop start stack = p.skipLoop start stack) ∧
    ∀ (m : Machine) (c : κ), m.ip = start → m.currentCell = 0 →
      (∀ j, p.LoopCloses start j → Machine.exec p .loopStart m c = (.ok (), { m with ip := j }, c)) ∧
      ((¬ ∃ j, p.LoopCloses start j) →
        ∃ cause, Machine.exec p .loopStart m c = (.error (.corrupted start cause), m, c) ∧
          cause.reason = "loop start without a loop end") := by
  have hfound {j : Nat} (h : p.LoopCloses start j) : p.loopEnd? start = some j :=
    (loopEnd?_eq_some_iff_loopCloses hstart).mpr h
  refine ⟨fun n hn => ?_, fun j h => ⟨?_, ?_⟩, fun h => ?_, fun q h => ?_,
    fun m c hip hcell => ⟨fun j h => ?_, fun h => ?_⟩⟩
  · rw [skipFrom_eq, skipLoop_eq, scanLoop_of_le hn]
    rfl
  · rw [skipLoop_eq, hfound h]
  · obtain ⟨body, -, -, hheld, rfl⟩ := h.exists_body hstart
    have hlast := hheld.get?
    rwa [Nat.add_right_comm] at hlast
  · rw [skipLoop_eq, loopEnd?_eq_none hstart h]
  · rw [skipLoop_eq, skipLoop_eq, h.loopEnd?_eq]
  · rw [Machine.exec_loopStart, if_pos hcell, hip, hfound h]
  · refine ⟨.unclosedLoop, ?_, rfl⟩
    rw [Machine.exec_loopStart, if_pos hcell, hip, loopEnd?_eq_none hstart h]

/-- A loop with another one and an unknown byte inside is passed over on a stack with two loops open, and
so it is with an addition in place of the unknown byte; a loop with a `halt` inside is not. -/
theorem skipLoop_exact_nested :
    (ofBody [6, 99, 6, 7, 7]).LoopCloses 16 20 ∧
      (ofBody [6, 99, 6, 7, 7]).skipLoop 16 [9, 4] = (some 20, [9, 4]) ∧
      (ofBody [6, 2, 6, 7, 7]).skipLoop 16 [9, 4] = (some 20, [9, 4]) ∧
      (¬ ∃ j, (ofBody [6, 8, 7]).LoopCloses 16 j) ∧
      (ofBody [6, 8, 7]).skipLoop 16 [9, 4] = (none, [9, 4]) := by
  have hcloses : (ofBody [6, 99, 6, 7, 7]).LoopCloses 16 20 :=
    ⟨by decide, by decide, by decide, by decide, by decide⟩
  have hopen : ¬ ∃ j, (ofBody [6, 8, 7]).LoopCloses 16 j := by
    intro h
    obtain ⟨j, h⟩ := h
    have hlast : j = 17 ∨ j = 18 := by
      have hbehind := h.behind
      have hinside : j < 19 := h.inside
      omega
    rcases hlast with rfl | rfl
    · exact absurd h.level (by decide)
    · exact h.running 17 (by decide) (by decide) (by decide)
  have hretouched : (ofBody [6, 99, 6, 7, 7]).Retouched (ofBody [6, 2, 6, 7, 7]) 16 := by
    intro i hi
    have hplaces : i = 17 ∨ i = 18 ∨ i = 19 ∨ i = 20 ∨ 21 ≤ i := by omega
    rcases hplaces with rfl | rfl | rfl | rfl | hlast
    · exact .inr ⟨99, 2, by decide, by decide, by decide, by decide, by decide⟩
    · exact .inl (by decide)
    · exact .inl (by decide)
    · exact .inl (by decide)
    · have hp : (ofBody [6, 99, 6, 7, 7]).get? i = none := Array.getElem?_eq_none hlast
      have hq : (ofBody [6, 2, 6, 7, 7]).get? i = none := Array.getElem?_eq_none hlast
      exact .inl (hq.trans hp.symm)
  have hnested : (ofBody [6, 99, 6, 7, 7]).get? 16 = some Opcode.loopStart.byte := by decide
  have hhalting : (ofBody [6, 8, 7]).get? 16 = some Opcode.loopStart.byte := by decide
  obtain ⟨-, hends, -, hsame, -⟩ := skipLoop_exact (κ := Terminal) hnested [9, 4]
  obtain ⟨-, -, hfails, -⟩ := skipLoop_exact (κ := Terminal) hhalting [9, 4]
  have hscan := (hends 20 hcloses).1
  exact ⟨hcloses, hscan, (hsame _ hretouched).trans hscan, hopen, hfails hopen⟩

end Program

end TapeMachine
