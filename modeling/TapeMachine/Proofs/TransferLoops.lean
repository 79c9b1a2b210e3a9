import TapeMachine.Proofs.StraightCode
import TapeMachine.Proofs.TapeContents

/-!
# Clearing and transfer loops

The loop `[-]` empties its cell, and with moves and additions inside it adds a multiple of the cell to
another one. Both do so for every value, since a loop that takes one off goes round once for every unit
of the value read without a sign. What the rounds make of the tape is worked out on the tape alone: what
its cells hold, and how far it has grown.
-/

namespace TapeMachine

namespace Tape

variable {t t' t'' : Tape} {i j : Nat}

/-- A tape that has been reached up to a cell: it holds this cell and no fewer than before, and only as
many as before if the cell was among them. -/
structure GrownTo (t t' : Tape) (index : Nat) : Prop where
  growth : t'.growth = t.growth
  highest : t'.highest = max t.highest index
  size_le : t.size ≤ t'.size
  inside : index < t'.size
  fits : index < t.size → t'.size = t.size

/-- Reaching one cell after another. -/
theorem GrownTo.trans (h : GrownTo t t' i) (h' : GrownTo t' t'' j) : GrownTo t t'' (max i j) where
  growth := h'.growth.trans h.growth
  highest := by rw [h'.highest, h.highest, Nat.max_assoc]
  size_le := h.size_le.trans h'.size_le
  inside := max_lt (h.inside.trans_le h'.size_le) h'.inside
  fits hsize := by
    obtain ⟨hi, hj⟩ := Nat.max_lt.mp hsize
    have hfirst := h.fits hi
    exact (h'.fits (hfirst ▸ hj)).trans hfirst

/-- A change reaches its cell. -/
theorem grownTo_modify (t : Tape) (index : Nat) (f : Int64 → Int64) : GrownTo t (t.modify index f) index where
  growth := rfl
  highest := rfl
  size_le := by
    rw [size_modify]
    exact Nat.le_max_left _ _
  inside := by
    rw [size_modify]
    exact Nat.le_max_right _ _
  fits h := by
    rw [size_modify]
    exact Nat.max_eq_left h

/-- A move to the right reaches the next cell. -/
theorem grownTo_advance (t : Tape) (pointer : Nat) : GrownTo t (t.advance pointer) (pointer + 1) where
  growth := rfl
  highest := rfl
  size_le := (lt_size_advance t pointer).1
  inside := (lt_size_advance t pointer).2
  fits h := by
    have hlt : pointer + 1 < t.cells.size := h
    change (padded t.cells (if _ then _ else _)).size = t.cells.size
    rw [if_pos hlt, size_padded, Nat.max_self]

/-- Make room for so many moves to the right. -/
def advances : Tape → (pointer count : Nat) → Tape
  | t, _, 0 => t
  | t, pointer, count + 1 => (t.advance pointer).advances (pointer + 1) count

/-- Making room for moves changes no cell. -/
@[simp]
theorem get_advances (t : Tape) (pointer count index : Nat) :
    (t.advances pointer count).get index = t.get index := by
  induction count generalizing t pointer with
  | zero => rfl
  | succ count ih => rw [advances, ih, get_advance]

/-- From a cell that was reached, moves to the right reach the cell that they lead to. -/
theorem GrownTo.advances {pointer : Nat} (h : GrownTo t t' pointer) (count : Nat) :
    GrownTo t (t'.advances pointer count) (pointer + count) := by
  induction count generalizing t' pointer with
  | zero => exact h
  | succ count ih =>
    have hnext := h.trans (grownTo_advance t' pointer)
    rw [Nat.max_eq_right (Nat.le_succ pointer)] at hnext
    rw [Tape.advances, Nat.add_left_comm, Nat.add_comm count]
    exact ih hnext

/-- Add one to a cell so many times. -/
def raise (index count : Nat) (t : Tape) : Tape := (fun t => t.modify index (· + 1))^[count] t

/-- Additions change their cell only. -/
theorem get_raise (t : Tape) (i count index : Nat) :
    (t.raise i count).get index = if index = i then t.get index + .ofNat count else t.get index := by
  induction count generalizing t with
  | zero => simp [raise]
  | succ count ih =>
    rw [raise, Function.iterate_succ_apply, ← raise, ih, get_modify]
    split
    · rw [Int64.ofNat_add, Int64.add_assoc, Int64.add_comm (.ofNat count)]
      rfl
    · rfl

/-- Additions to a cell that was reached reach no other. -/
theorem GrownTo.raise (h : GrownTo t t' i) (count : Nat) : GrownTo t (t'.raise i count) i := by
  induction count generalizing t' with
  | zero => exact h
  | succ count ih =>
    have hnext := h.trans (grownTo_modify t' i (· + 1))
    rw [Nat.max_self] at hnext
    exact ih hnext

/-- One round of a transfer: one is taken off a cell, and so much is added to the cell at a distance. -/
def transfer (pointer distance factor : Nat) (t : Tape) : Tape :=
  ((t.modify pointer (· - 1)).advances pointer distance).raise (pointer + distance) factor

/-- What one round of a transfer makes of the cells. -/
theorem get_transfer {distance factor : Nat} (h : 1 ≤ distance ∨ factor = 0) (pointer : Nat) (t : Tape)
    (index : Nat) :
    (t.transfer pointer distance factor).get index =
      if index = pointer then t.get index - 1
      else if index = pointer + distance then t.get index + .ofNat factor else t.get index := by
  rw [transfer, get_raise, get_advances, get_modify]
  by_cases hpointer : index = pointer
  · rw [if_pos hpointer]
    split
    · obtain rfl : factor = 0 := by omega
      exact Int64.add_zero _
    · rfl
  · rw [if_neg hpointer, if_neg hpointer]

/-- What rounds of a transfer make of the cells. -/
theorem get_transfer_iterate {distance factor : Nat} (h : 1 ≤ distance ∨ factor = 0) (pointer rounds : Nat)
    (t : Tape) (index : Nat) :
    ((transfer pointer distance factor)^[rounds] t).get index =
      if index = pointer then t.get index - .ofNat rounds
      else if index = pointer + distance then t.get index + .ofNat factor * .ofNat rounds
      else t.get index := by
  induction rounds generalizing t with
  | zero => simp
  | succ rounds ih =>
    rw [Function.iterate_succ_apply, ih, get_transfer h, Int64.ofNat_add]
    split
    · grind
    · split
      · grind
      · rfl

/-- A transfer with at least one round reaches the cell at the distance. -/
theorem grownTo_transfer_iterate (pointer distance factor rounds : Nat) (t : Tape) :
    GrownTo t ((transfer pointer distance factor)^[rounds + 1] t) (pointer + distance) := by
  have hround (t : Tape) : GrownTo t (t.transfer pointer distance factor) (pointer + distance) :=
    ((grownTo_modify t pointer (· - 1)).advances distance).raise factor
  induction rounds with
  | zero => exact hround t
  | succ rounds ih =>
    have hnext := ih.trans (hround _)
    rw [Nat.max_self] at hnext
    rwa [Function.iterate_succ_apply']

end Tape

/-- The body of a transfer loop. -/
def transferBody (distance factor : Nat) : List Action :=
  .decrement :: (List.replicate distance .moveRight ++ List.replicate factor .increment ++
    List.replicate distance .moveLeft)

/-- The text of a transfer loop. -/
def transferLoop (distance factor : Nat) : String :=
  String.ofList ('[' :: '-' :: (List.replicate distance '>' ++ List.replicate factor '+' ++
    List.replicate distance '<' ++ [']']))

/-- Moves to the right make room for themselves. -/
theorem makes_moveRight (t : Tape) (pointer count : Nat) :
    Makes (List.replicate count .moveRight) t pointer (t.advances pointer count) (pointer + count) := by
  induction count generalizing t pointer with
  | zero => exact .nothing
  | succ count ih =>
    rw [List.replicate_succ, Tape.advances, Nat.add_left_comm, Nat.add_comm count]
    exact .moveRight (ih _ _)

/-- Moves to the left lead back from where as many moves to the right led. -/
theorem makes_moveLeft (t : Tape) (pointer count : Nat) :
    Makes (List.replicate count .moveLeft) t (pointer + count) t pointer := by
  induction count with
  | zero => exact .nothing
  | succ count ih => exact .moveLeft ih

/-- Additions raise the cell under the pointer. -/
theorem makes_increment (t : Tape) (pointer count : Nat) :
    Makes (List.replicate count .increment) t pointer (t.raise pointer count) pointer := by
  induction count generalizing t with
  | zero => exact .nothing
  | succ count ih => exact .increment (ih _)

/-- The body of a transfer loop makes one round of the transfer and comes back. -/
theorem makes_transferBody (distance factor pointer : Nat) (t : Tape) :
    Makes (transferBody distance factor) t pointer (t.transfer pointer distance factor) pointer := by
  have hright := makes_moveRight (t.modify pointer (· - 1)) pointer distance
  exact .decrement ((hright.append (makes_increment _ _ factor)).append (makes_moveLeft _ _ distance))

/-- The text of a transfer loop stands for the loop around its body. -/
theorem instructions_transferLoop (distance factor : Nat) :
    instructions (transferLoop distance factor) =
      (Code.loop (.straight (transferBody distance factor)) .done).opcodes := by
  simp [instructions, transferLoop, transferBody, Code.opcodes, Opcode.ofChar?, Action.opcode]

namespace Machine

variable {κ : Type} [Console κ]

/-- A run of a transfer loop goes round once for every unit of its cell and halts behind the loop. -/
theorem run_transferLoop {distance factor : Nat} (h : 1 ≤ distance ∨ factor = 0) (m : Machine) (c : κ)
    (fuel : Nat) :
    let units := m.currentCell.toUInt64.toNat
    let count := (2 * distance + factor + 2) * units + 1
    run fuel (compile (transferLoop distance factor)) m c =
      if count < fuel then
        some (settle (.ok ()) (Console.flush c).1,
          { m with
            tape := (Tape.transfer m.pointer distance factor)^[units] m.tape
            ip := Program.entry + (2 * distance + factor + 1) + 2
            loopStack := []
            steps := m.steps + .ofNat count },
          (Console.flush c).2)
      else none := by
  intro units count
  have hlength : (transferBody distance factor).length = 2 * distance + factor + 1 := by
    simp only [transferBody, List.length_cons, List.length_append, List.length_replicate]
    omega
  let code := Code.loop (.straight (transferBody distance factor)) .done
  have hp := Program.hasHeader_ofOpcodes code.opcodes
  have hcode : (Program.ofOpcodes code.opcodes).Holds Program.entry (code.bytes ++ [Opcode.halt.byte]) :=
    Program.holds_ofOpcodes code.opcodes
  obtain ⟨hloop, hlast⟩ := Program.holds_append.mp hcode
  have hcell (tape : Tape) :
      (tape.transfer m.pointer distance factor).get m.pointer = tape.get m.pointer - 1 := by
    rw [Tape.get_transfer h, if_pos rfl]
  have hrounds := leadsTo_countdown (m := m.rewind) hp hloop (makes_transferBody distance factor m.pointer)
    hcell (.inl ⟨rfl, rfl⟩) rfl rfl c
  rw [hlength] at hrounds
  -- The loop is left behind its last bracket, and `halt` stands there.
  have hstops {m' : Machine} (hip : m'.ip = Program.entry + (2 * distance + factor + 1) + 2) :
      Stops (stepWith (Program.ofOpcodes code.opcodes)) (m', c) (.ok ()) (m', c) := by
    have hbytes : code.bytes.length = 2 * distance + factor + 1 + 2 := by
      simp [Code.bytes, code, Code.opcodes, hlength]
    have hhalt := (Program.holds_cons.mp hlast).1
    rw [hbytes, ← Nat.add_assoc, ← hip] at hhalt
    exact .halted (step_eq_halted_iff.mpr ⟨fetch_eq_ok_iff.mpr ⟨hp, hhalt⟩, rfl, rfl⟩)
  rw [compile_eq, instructions_transferLoop, run_of_hasHeader hp, hrounds.iterate_eq (hstops rfl)]
  change Option.map _ (if count < fuel then _ else _) = _
  split <;> rfl

/-- A transfer loop works for every machine, whatever value its cell holds. The run halts, with the
result of the flush at its end, after a number of instructions that the cell read without a sign gives.
The cell is zero then, the cell at the distance has gained the multiple of the value, with the wrap of
64-bit numbers, and no other cell is changed, nor is the pointer; no loop is open, and the tape has grown
just as far as the pointer went. With no distance this is the clearing loop. -/
theorem transferLoop_exact {distance factor : Nat} (h : 1 ≤ distance ∨ factor = 0) (m : Machine) (c : κ) :
    let value := m.currentCell
    let units := value.toUInt64.toNat
    let count := (2 * distance + factor + 2) * units + 1
    ∃ m' : Machine,
      (∀ fuel, run fuel (compile (transferLoop distance factor)) m c =
        if count < fuel then some (settle (.ok ()) (Console.flush c).1, m', (Console.flush c).2)
        else none) ∧
      m'.tape.get m.pointer = 0 ∧
      (1 ≤ distance → m'.tape.get (m.pointer + distance) =
        .ofInt ((m.tape.get (m.pointer + distance)).toInt + factor * value.toInt)) ∧
      (∀ index, index ≠ m.pointer → index ≠ m.pointer + distance →
        m'.tape.get index = m.tape.get index) ∧
      m'.pointer = m.pointer ∧ m'.loopStack = [] ∧ m'.steps = m.steps + .ofNat count ∧
      (value = 0 → m'.tape = m.tape) ∧
      (value ≠ 0 → m.tape.GrownTo m'.tape (m.pointer + distance)) ∧
      (distance = 0 → transferLoop distance factor = "[-]" ∧ count = 2 * units + 1) := by
  intro value units count
  let m' : Machine :=
    { m with
      tape := (Tape.transfer m.pointer distance factor)^[units] m.tape
      ip := Program.entry + (2 * distance + factor + 1) + 2
      loopStack := []
      steps := m.steps + .ofNat count }
  have hget (index : Nat) : m'.tape.get index =
      if index = m.pointer then m.tape.get index - value
      else if index = m.pointer + distance then m.tape.get index + .ofNat factor * value
      else m.tape.get index := by
    have hunits : Int64.ofNat units = value := ofNat_toNat_toUInt64 value
    rw [← hunits]
    exact Tape.get_transfer_iterate h m.pointer units m.tape index
  refine ⟨m', run_transferLoop h m c, ?_, fun hdistance => ?_, fun index hpointer htarget => ?_, rfl, rfl,
    rfl, fun hzero => ?_, fun hne => ?_, fun hdistance => ?_⟩
  · rw [hget, if_pos rfl]
    exact Int64.sub_self value
  · rw [hget, if_neg (by omega), if_pos rfl, Int64.ofInt_add, Int64.ofInt_mul, Int64.ofInt_toInt,
      Int64.ofInt_toInt, Int64.ofInt_eq_ofNat]
  · rw [hget, if_neg hpointer, if_neg htarget]
  · have hnone : units = 0 := congrArg (fun value : Int64 => value.toUInt64.toNat) hzero
    change (Tape.transfer m.pointer distance factor)^[units] m.tape = m.tape
    rw [hnone]
    rfl
  · have hsome : units = (value - 1).toUInt64.toNat + 1 := (toNat_toUInt64_sub_one hne).symm
    change m.tape.GrownTo ((Tape.transfer m.pointer distance factor)^[units] m.tape) (m.pointer + distance)
    rw [hsome]
    exact Tape.grownTo_transfer_iterate m.pointer distance factor _ m.tape
  · obtain rfl : factor = 0 := by omega
    subst hdistance
    exact ⟨by decide, rfl⟩

/-- From a cell with the value -5 a run of `[->++<]` adds twice as much to the cell behind it, which takes
more rounds than can be carried out. -/
theorem transferLoop_exact_negative :
    ∃ fuel m', run fuel (compile "[->++<]") ⟨⟨#[-5], 1, 0⟩, 0, 0, [7], 3⟩ ({} : Terminal) =
        some (.ok (), m', {}) ∧
      m'.tape.get 0 = 0 ∧ m'.tape.get 1 = -10 ∧ m'.pointer = 0 ∧ m'.loopStack = [] ∧
      1 < m'.tape.size := by
  have hdistance : 1 ≤ 1 ∨ 2 = 0 := .inl (by decide)
  obtain ⟨m', hrun, hcell, htarget, -, hpointer, hstack, -, -, hgrown, -⟩ :=
    transferLoop_exact hdistance ⟨⟨#[-5], 1, 0⟩, 0, 0, [7], 3⟩ ({} : Terminal)
  refine ⟨_, m', (hrun _).trans (if_pos (Nat.lt_succ_self _)), hcell, ?_, hpointer, hstack, ?_⟩
  · exact (htarget (by decide)).trans (by decide)
  · exact (hgrown (by decide)).inside

end Machine

end TapeMachine
