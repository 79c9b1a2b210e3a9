import TapeMachine.Proofs.Brackets
import TapeMachine.Proofs.SkipScan

/-!
# Matching brackets of a program

A program holds a word at a position when its bytes from there on start with the word. A loop start
matches a loop end when the bytes between them balance, which says nothing about execution.

The scan that passes over a loop finds exactly the matching loop end, as long as no `halt` stands
before it. Bytes that stand for no instruction play no part.
-/

namespace TapeMachine

namespace Program

variable {p : Program} {ip i j : Nat} {b : UInt8} {u v w : List UInt8}

/-- The bytes from a position on start with a word. -/
def Holds (p : Program) (ip : Nat) (w : List UInt8) : Prop := w <+: p.bytes.toList.drop ip

/-- Nothing has to be there for the empty word. -/
theorem holds_nil : p.Holds ip [] := List.nil_prefix

/-- A word is held when its first byte stands there and the rest behind it. -/
theorem holds_cons : p.Holds ip (b :: w) ↔ p.get? ip = some b ∧ p.Holds (ip + 1) w := by
  have hget : p.get? ip = (p.bytes.toList.drop ip).head? := by
    rw [List.head?_drop, Array.getElem?_toList]
    rfl
  rw [Holds, Holds, hget, ← List.tail_drop]
  cases p.bytes.toList.drop ip with
  | nil => simp
  | cons a rest => simp [List.cons_prefix_cons, eq_comm]

/-- A word of two parts is held when the second part stands behind the first. -/
theorem holds_append : p.Holds ip (u ++ v) ↔ p.Holds ip u ∧ p.Holds (ip + u.length) v := by
  induction u generalizing ip with
  | nil => simp [holds_nil]
  | cons a u ih =>
    rw [List.cons_append, holds_cons, holds_cons, ih, List.length_cons, and_assoc,
      Nat.add_right_comm, Nat.add_assoc]

/-- Of two words held at one position the shorter starts the longer. -/
theorem Holds.isPrefix (hu : p.Holds ip u) (hv : p.Holds ip v) (h : u.length ≤ v.length) : u <+: v :=
  List.prefix_of_prefix_length_le hu hv h

/-- A word that is held fits in the program. -/
theorem Holds.length_le (h : p.Holds ip w) : w.length ≤ p.size - ip := by
  have := List.IsPrefix.length_le h
  simpa [size] using this

/-- Each byte of a word that is held stands at its place. -/
theorem Holds.get? (h : p.Holds ip (u ++ b :: v)) : p.get? (ip + u.length) = some b :=
  (holds_cons.mp (holds_append.mp h).2).1

/-- Every position of a word that is held splits the word there. -/
theorem Holds.split (h : p.Holds ip w) (hi : ip ≤ i) (hlt : i < ip + w.length) :
    ∃ u b v, w = u ++ b :: v ∧ i = ip + u.length ∧ p.get? i = some b := by
  have hindex : i - ip < w.length := by omega
  have hsplit : w = w.take (i - ip) ++ w[i - ip] :: w.drop (i - ip + 1) := by
    rw [List.getElem_cons_drop, List.take_append_drop]
  have hlength : i = ip + (w.take (i - ip)).length := by
    rw [List.length_take]
    omega
  refine ⟨_, _, _, hsplit, hlength, ?_⟩
  rw [hsplit] at h
  have hget := h.get?
  rwa [← hlength] at hget

/-- Behind the header of a framed program stand its instructions and a `halt`. -/
theorem holds_ofOpcodes (ops : List Opcode) :
    (ofOpcodes ops).Holds entry (ops.map Opcode.byte ++ [Opcode.halt.byte]) := by
  refine ⟨[], ?_⟩
  rw [toList_bytes_ofOpcodes, show entry = header.toList.length from rfl, List.drop_left,
    List.append_nil]

/-- The loop start at `i` and the loop end at `j` belong together. -/
def Matched (p : Program) (i j : Nat) : Prop :=
  ∃ body, Balanced bracketOfByte? body ∧
    p.Holds i (Opcode.loopStart.byte :: (body ++ [Opcode.loopEnd.byte])) ∧ j = i + body.length + 1

/-- A loop inside a word that is held is a loop of the program. -/
theorem Holds.matched {body : List UInt8} (hbody : Balanced bracketOfByte? body)
    (h : p.Holds ip (u ++ Opcode.loopStart.byte :: (body ++ Opcode.loopEnd.byte :: v))) :
    p.Matched (ip + u.length) (ip + u.length + body.length + 1) := by
  refine ⟨body, hbody, ?_, rfl⟩
  have hloop := (holds_append.mp h).2
  rw [show Opcode.loopStart.byte :: (body ++ Opcode.loopEnd.byte :: v) =
    Opcode.loopStart.byte :: (body ++ [Opcode.loopEnd.byte]) ++ v by simp] at hloop
  exact (holds_append.mp hloop).1

/-- A loop of the program that lies inside a word that is held is a loop of the word. -/
theorem Matched.split (h : p.Matched i j) (hw : p.Holds ip w) (hi : ip ≤ i)
    (hj : j < ip + w.length) :
    ∃ u body v, w = u ++ Opcode.loopStart.byte :: (body ++ Opcode.loopEnd.byte :: v) ∧
      i = ip + u.length ∧ Balanced bracketOfByte? body := by
  obtain ⟨body, hbody, hloop, rfl⟩ := h
  obtain ⟨u, b, v, rfl, rfl, -⟩ := hw.split hi (by omega)
  have hlength : (Opcode.loopStart.byte :: (body ++ [Opcode.loopEnd.byte])).length ≤
      (b :: v).length := by
    simp only [List.length_cons, List.length_append, List.length_nil] at hj ⊢
    omega
  obtain ⟨rest, hrest⟩ := hloop.isPrefix (holds_append.mp hw).2 hlength
  exact ⟨u, body, rest, by simp [← hrest], rfl, hbody⟩

/-- A loop that ends right behind a word that is held starts in the word. -/
theorem Matched.split_last (h : p.Matched i (ip + w.length)) (hw : p.Holds ip w) (hi : ip ≤ i) :
    ∃ u body, w = u ++ Opcode.loopStart.byte :: body ∧ i = ip + u.length ∧
      Balanced bracketOfByte? body := by
  obtain ⟨body, hbody, hloop, hj⟩ := h
  obtain ⟨u, b, v, rfl, rfl, -⟩ := hw.split hi (by omega)
  have hlength : (Opcode.loopStart.byte :: body).length = (b :: v).length := by
    simp only [List.length_cons, List.length_append] at hj ⊢
    omega
  rw [← List.cons_append] at hloop
  have hstart := (holds_append.mp hloop).1.isPrefix (holds_append.mp hw).2 (Nat.le_of_eq hlength)
  exact ⟨u, body, by rw [hstart.eq_of_length hlength], rfl, hbody⟩

/-- A byte at which the scan does not look moves it on. -/
theorem scanLoop_plain (hget : p.get? ip = some b) (hb : bracketOfByte? b = none)
    (hhalt : b ≠ Opcode.halt.byte) (n d : Nat) :
    p.scanLoop (n + 1) ip d = p.scanLoop n (ip + 1) d := by
  simp only [scanLoop, hget, Option.map_some]
  cases hop : Opcode.ofByte? b with
  | none => rfl
  | some op =>
    have hbyte := Opcode.eq_byte_of_ofByte? hop
    subst hbyte
    rw [bracketOfByte?_byte] at hb
    cases op <;> first | rfl | contradiction

/-- What stands before a loop end at or behind a position is nothing or starts with the byte there. -/
theorem holds_before_loopEnd (hget : p.get? ip = some b) :
    p.Holds ip (w ++ [Opcode.loopEnd.byte]) ↔
      (w = [] ∧ b = Opcode.loopEnd.byte) ∨
        ∃ v, w = b :: v ∧ p.Holds (ip + 1) (v ++ [Opcode.loopEnd.byte]) := by
  cases w with
  | nil => simp [holds_cons, holds_nil, hget]
  | cons a v =>
    rw [List.cons_append, holds_cons, hget]
    refine ⟨fun h => ?_, fun h => ?_⟩
    · obtain ⟨heq, hv⟩ := h
      obtain rfl : b = a := by simpa using heq
      exact .inr ⟨v, rfl, hv⟩
    · rcases h with ⟨h, -⟩ | ⟨v', h, hv⟩
      · contradiction
      · obtain ⟨rfl, rfl⟩ := List.cons_eq_cons.mp h
        exact ⟨rfl, hv⟩

/-- Less than `n` bytes behind a position stands a loop end that brings `d` open loops down to none,
with no `halt` on the way. -/
def ScanEnds (p : Program) (n ip d j : Nat) : Prop :=
  ∃ w, w.length < n ∧ p.Holds ip (w ++ [Opcode.loopEnd.byte]) ∧ depth? bracketOfByte? d w = some 0 ∧
    Opcode.halt.byte ∉ w ∧ j = ip + w.length

/-- Nothing ends the scan past the end of the program. -/
theorem not_scanEnds_of_get? (hget : p.get? ip = none) (n d : Nat) : ¬ p.ScanEnds n ip d j := by
  intro h
  obtain ⟨w, -, hw, -⟩ := h
  cases w with
  | nil => simp [holds_cons, hget] at hw
  | cons a w => simp [holds_cons, hget] at hw

/-- Nothing ends the scan at a `halt`. -/
theorem not_scanEnds_of_halt (hget : p.get? ip = some Opcode.halt.byte) (n d : Nat) :
    ¬ p.ScanEnds n ip d j := by
  intro h
  obtain ⟨w, -, hw, -, hno, -⟩ := h
  rcases (holds_before_loopEnd hget).mp hw with ⟨-, hend⟩ | ⟨v, rfl, -⟩
  · exact absurd hend (by decide)
  · simp at hno

/-- A byte that does not end the scan leaves what comes behind it to the scan. -/
theorem scanEnds_succ_iff {n d e : Nat} (hget : p.get? ip = some b)
    (hdepth : ∀ v, depth? bracketOfByte? d (b :: v) = depth? bracketOfByte? e v)
    (hend : b = Opcode.loopEnd.byte → d ≠ 0) (hhalt : b ≠ Opcode.halt.byte) :
    p.ScanEnds (n + 1) ip d j ↔ p.ScanEnds n (ip + 1) e j := by
  refine ⟨fun h => ?_, fun h => ?_⟩
  · obtain ⟨w, hlt, hw, hd, hno, rfl⟩ := h
    rcases (holds_before_loopEnd hget).mp hw with ⟨rfl, hb⟩ | ⟨v, rfl, hv⟩
    · exact absurd (by simpa [depth?] using hd) (hend hb)
    · rw [List.mem_cons, not_or] at hno
      rw [hdepth] at hd
      refine ⟨v, by simpa using hlt, hv, hd, hno.2, ?_⟩
      rw [List.length_cons]
      omega
  · obtain ⟨v, hlt, hv, hd, hno, rfl⟩ := h
    rw [← hdepth] at hd
    refine ⟨b :: v, by simpa using hlt, (holds_before_loopEnd hget).mpr (.inr ⟨v, rfl, hv⟩), hd, ?_, ?_⟩
    · simpa using ⟨hhalt.symm, hno⟩
    · rw [List.length_cons]
      omega

/-- With no loop open inside, the scan ends at the first loop end. -/
theorem scanEnds_loopEnd_iff {n : Nat} (hget : p.get? ip = some Opcode.loopEnd.byte) :
    p.ScanEnds (n + 1) ip 0 j ↔ j = ip := by
  refine ⟨fun h => ?_, fun h => ?_⟩
  · obtain ⟨w, -, hw, hd, -, rfl⟩ := h
    rcases (holds_before_loopEnd hget).mp hw with ⟨rfl, -⟩ | ⟨v, rfl, -⟩
    · rfl
    · simp [depth?, Opcode.bracket?] at hd
  · have hheld : p.Holds ip ([] ++ [Opcode.loopEnd.byte]) := holds_cons.mpr ⟨hget, holds_nil⟩
    exact ⟨[], Nat.succ_pos n, hheld, rfl, by simp, h⟩

/-- The scan finds the loop end that brings the open loops down to none. -/
theorem scanLoop_eq_some_iff {n d : Nat} : p.scanLoop n ip d = some j ↔ p.ScanEnds n ip d j := by
  induction n generalizing ip d with
  | zero => simp [scanLoop, ScanEnds]
  | succ n ih =>
    cases hget : p.get? ip with
    | none => simp [scanLoop, hget, not_scanEnds_of_get? hget]
    | some b =>
      cases hb : bracketOfByte? b with
      | none =>
        by_cases hhalt : b = Opcode.halt.byte
        · subst hhalt
          simp [scanLoop, hget, not_scanEnds_of_halt hget]
        · have hend : b = Opcode.loopEnd.byte → d ≠ 0 := by
            intro hend
            rw [hend] at hb
            contradiction
          rw [scanLoop_plain hget hb hhalt, ih]
          exact (scanEnds_succ_iff hget (fun v => by simp [depth?, hb]) hend hhalt).symm
      | some bracket =>
        cases bracket with
        | opening =>
          obtain rfl := bracketOfByte?_eq_opening.mp hb
          have hscan : p.scanLoop (n + 1) ip d = p.scanLoop n (ip + 1) (d + 1) := by
            simp [scanLoop, hget]
          rw [hscan, ih]
          exact (scanEnds_succ_iff hget (fun v => by simp [depth?, hb])
            (fun h => absurd h (by decide)) (by decide)).symm
        | closing =>
          obtain rfl := bracketOfByte?_eq_closing.mp hb
          cases d with
          | zero =>
            rw [scanEnds_loopEnd_iff hget]
            simp [scanLoop, hget, eq_comm]
          | succ d =>
            have hscan : p.scanLoop (n + 1) ip (d + 1) = p.scanLoop n (ip + 1) d := by
              simp [scanLoop, hget]
            rw [hscan, ih]
            exact (scanEnds_succ_iff hget (fun v => by simp [depth?, hb])
              (fun _ => Nat.succ_ne_zero d) (by decide)).symm

/-- The loop end found for a loop start is the matching one, and no `halt` stands before it. -/
theorem loopEnd?_eq_some_iff :
    p.loopEnd? i = some j ↔
      ∃ body, Balanced bracketOfByte? body ∧ Opcode.halt.byte ∉ body ∧
        p.Holds (i + 1) (body ++ [Opcode.loopEnd.byte]) ∧ j = i + body.length + 1 := by
  rw [loopEnd?, scanLoop_eq_some_iff]
  refine ⟨fun h => ?_, fun h => ?_⟩
  · obtain ⟨body, -, hbody, hd, hno, rfl⟩ := h
    exact ⟨body, balanced_iff_depth?.mpr hd, hno, hbody, by omega⟩
  · obtain ⟨body, hd, hno, hbody, rfl⟩ := h
    have hlength := hbody.length_le
    simp only [List.length_append, List.length_singleton] at hlength
    exact ⟨body, by omega, hbody, balanced_iff_depth?.mp hd, hno, by omega⟩

/-- A loop without `halt` inside a word that is held is passed over wherever the word stands. -/
theorem Holds.loopEnd?_eq {body : List UInt8} (hbody : Balanced bracketOfByte? body)
    (hno : Opcode.halt.byte ∉ body)
    (h : p.Holds ip (u ++ Opcode.loopStart.byte :: (body ++ Opcode.loopEnd.byte :: v))) :
    p.loopEnd? (ip + u.length) = some (ip + u.length + body.length + 1) := by
  have hinner := (holds_cons.mp (holds_append.mp h).2).2
  rw [List.append_cons] at hinner
  exact loopEnd?_eq_some_iff.mpr ⟨body, hbody, hno, (holds_append.mp hinner).1, rfl⟩

end Program

end TapeMachine
