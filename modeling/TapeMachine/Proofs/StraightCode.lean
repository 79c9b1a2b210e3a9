import TapeMachine.Proofs.Refinement

/-!
# Straight code

Actions that move the pointer or change the cell under it need no console and jump nowhere. What they
make of the tape and the pointer is all there is to them, and the machine takes one step for each. A loop
around such code whose rounds come back to the same cell with one taken off goes round once for every
unit of the cell, read without a sign: a negative value counts down past the smallest one and comes to
zero from above.
-/

namespace TapeMachine

section Iterate

variable {σ ε : Type} {step : σ → Except ε Progress × σ} {s t u : σ} {n k : Nat}

/-- So many steps that all go on lead from one state to another. -/
def LeadsTo (step : σ → Except ε Progress × σ) (n : Nat) (s t : σ) : Prop :=
  GoesOn step s n ∧ stateAfter step s n = t

namespace LeadsTo

/-- No step leads nowhere else. -/
theorem refl (s : σ) : LeadsTo step 0 s s := ⟨fun k hk => absurd hk (Nat.not_lt_zero k), rfl⟩

/-- One step before others. -/
theorem head (h : LeadsTo step n t u) (hstep : Continues step s t) : LeadsTo step (n + 1) s u := by
  obtain rfl : (step s).2 = t := congrArg Prod.snd hstep
  exact ⟨.cons (congrArg Prod.fst hstep) h.1, h.2⟩

/-- Steps before other steps. -/
theorem trans (h : LeadsTo step n s t) (h' : LeadsTo step k t u) : LeadsTo step (n + k) s u := by
  induction n generalizing s with
  | zero =>
    obtain ⟨-, rfl⟩ := h
    rwa [Nat.zero_add]
  | succ n ih =>
    have hstep : Continues step s (step s).2 := Prod.ext (h.1 0 (Nat.succ_pos n)) rfl
    rw [Nat.add_right_comm]
    exact (ih ⟨fun j hj => h.1 (j + 1) (Nat.succ_lt_succ hj), h.2⟩).head hstep

/-- Steps that lead to one that stops are all of a repetition, if there is fuel for them and for the
one that stops. -/
theorem iterate_eq {r : Except ε Unit} (h : LeadsTo step n s u) (hstop : Stops step u r t) (fuel : Nat) :
    iterate step fuel s = if n < fuel then some (r, t) else none := by
  obtain ⟨hgoes, rfl⟩ := h
  split
  · next hlt => exact iterate_eq_some_iff_goesOn.mpr ⟨n, hlt, hgoes, hstop⟩
  · next hnot =>
    cases hiterate : iterate step fuel s with
    | none => rfl
    | some result =>
      obtain ⟨r', t'⟩ := result
      obtain ⟨j, hj, -, hstopped⟩ := iterate_eq_some_iff_goesOn.mp hiterate
      have hrunning := hgoes j (by omega)
      cases hstopped with
      | halted hstep => simp [hstep] at hrunning
      | failed hstep => simp [hstep] at hrunning

end LeadsTo

end Iterate

/-- A value is given back by the number it is when read without a sign. -/
theorem ofNat_toNat_toUInt64 (value : Int64) : Int64.ofNat value.toUInt64.toNat = value := by
  rw [← Int64.toInt64_toUInt64 (Int64.ofNat _), Int64.toUInt64_ofNat', UInt64.ofNat_toNat,
    Int64.toInt64_toUInt64]

/-- Taking one off a value that is not zero takes one off the number it is when read without a sign, also
where the value is negative. -/
theorem toNat_toUInt64_sub_one {value : Int64} (h : value ≠ 0) :
    (value - 1).toUInt64.toNat + 1 = value.toUInt64.toNat := by
  have hpos : value.toUInt64.toNat ≠ 0 := by
    intro hzero
    apply h
    rw [← ofNat_toNat_toUInt64 value, hzero]
    rfl
  have hone : (1 : UInt64) ≤ value.toUInt64 := by
    rw [UInt64.le_iff_toNat_le, UInt64.toNat_one]
    omega
  rw [Int64.toUInt64_sub, Int64.toUInt64_ofNat, UInt64.toNat_sub_of_le _ _ hone, UInt64.toNat_one]
  omega

/-- What actions without a console make of a tape and the pointer on it. -/
inductive Makes : List Action → Tape → Nat → Tape → Nat → Prop where
  | nothing {tape : Tape} {pointer : Nat} : Makes [] tape pointer tape pointer
  | moveRight {rest : List Action} {tape tape' : Tape} {pointer pointer' : Nat}
      (h : Makes rest (tape.advance pointer) (pointer + 1) tape' pointer') :
      Makes (.moveRight :: rest) tape pointer tape' pointer'
  | moveLeft {rest : List Action} {tape tape' : Tape} {pointer pointer' : Nat}
      (h : Makes rest tape pointer tape' pointer') :
      Makes (.moveLeft :: rest) tape (pointer + 1) tape' pointer'
  | increment {rest : List Action} {tape tape' : Tape} {pointer pointer' : Nat}
      (h : Makes rest (tape.modify pointer (· + 1)) pointer tape' pointer') :
      Makes (.increment :: rest) tape pointer tape' pointer'
  | decrement {rest : List Action} {tape tape' : Tape} {pointer pointer' : Nat}
      (h : Makes rest (tape.modify pointer (· - 1)) pointer tape' pointer') :
      Makes (.decrement :: rest) tape pointer tape' pointer'

/-- Actions after other actions start from what the others have made. -/
theorem Makes.append {actions more : List Action} {tape tape' tape'' : Tape}
    {pointer pointer' pointer'' : Nat} (h : Makes actions tape pointer tape' pointer')
    (hmore : Makes more tape' pointer' tape'' pointer'') :
    Makes (actions ++ more) tape pointer tape'' pointer'' := by
  induction h with
  | nothing => exact hmore
  | moveRight _ ih => exact .moveRight (ih hmore)
  | moveLeft _ ih => exact .moveLeft (ih hmore)
  | increment _ ih => exact .increment (ih hmore)
  | decrement _ ih => exact .decrement (ih hmore)

/-- Actions as code without loops. -/
def Code.straight : List Action → Code
  | [] => .done
  | action :: rest => .act action (straight rest)

/-- The instructions of straight code are those of its actions. -/
@[simp]
theorem Code.opcodes_straight (actions : List Action) :
    (Code.straight actions).opcodes = actions.map Action.opcode := by
  induction actions with
  | nil => rfl
  | cons action rest ih => rw [straight, opcodes, ih, List.map_cons]

namespace Machine

variable {κ : Type} [Console κ] {p : Program} {m : Machine}

/-- The machine behind so many instructions that leave it with this tape and pointer. -/
def past (m : Machine) (n : Nat) (tape : Tape) (pointer : Nat) : Machine :=
  { m with tape, pointer, ip := m.ip + n, steps := m.steps + .ofNat n }

/-- Behind one instruction and so many others. -/
theorem past_past (m : Machine) (n : Nat) (tape tape' : Tape) (pointer pointer' : Nat) :
    (m.past 1 tape pointer).past n tape' pointer' = m.past (n + 1) tape' pointer' := by
  simp only [past, mk.injEq, true_and]
  refine ⟨by omega, ?_⟩
  rw [UInt64.ofNat_add, UInt64.add_assoc, UInt64.add_comm (.ofNat 1)]

/-- The step on the first action, before the steps on the others. -/
theorem leadsTo_cons (hp : p.hasHeader = true) {action : Action} {rest : List Action} {m' : Machine}
    {tape tape' : Tape} {pointer pointer' : Nat} {c : κ}
    (hcode : p.Holds m.ip (Code.straight (action :: rest)).bytes)
    (hexec : exec p action.opcode m.count c = (.ok (), m', c)) (hm' : m'.next = m.past 1 tape pointer)
    (hrest : p.Holds (m.past 1 tape pointer).ip (Code.straight rest).bytes →
      LeadsTo (stepWith p) rest.length (m.past 1 tape pointer, c)
        ((m.past 1 tape pointer).past rest.length tape' pointer', c)) :
    LeadsTo (stepWith p) (rest.length + 1) (m, c) (m.past (rest.length + 1) tape' pointer', c) := by
  obtain ⟨hget, hheld⟩ := Program.holds_cons.mp hcode
  have hfetch : m.fetch p = .ok action.opcode := fetch_eq_ok_iff.mpr ⟨hp, hget⟩
  have hstep : Continues (stepWith p) (m, c) (m.past 1 tape pointer, c) :=
    step_eq_running_iff.mpr ⟨_, _, hfetch, action.opcode_plain.2, hexec, hm'.symm⟩
  rw [← past_past]
  exact (hrest hheld).head hstep

/-- The machine carries out straight code in one step for each action. -/
theorem leadsTo_of_makes (hp : p.hasHeader = true) {actions : List Action} {tape tape' : Tape}
    {pointer pointer' : Nat} (h : Makes actions tape pointer tape' pointer') (htape : m.tape = tape)
    (hpointer : m.pointer = pointer) (hcode : p.Holds m.ip (Code.straight actions).bytes) (c : κ) :
    LeadsTo (stepWith p) actions.length (m, c) (m.past actions.length tape' pointer', c) := by
  induction h generalizing m with
  | nothing =>
    subst htape hpointer
    have hsame : m.past 0 m.tape m.pointer = m := by simp [past]
    rw [List.length_nil, hsame]
    exact .refl _
  | moveRight _ ih =>
    subst htape hpointer
    exact leadsTo_cons hp hcode rfl rfl (ih rfl rfl)
  | @moveLeft rest tape tape' pointer pointer' _ ih =>
    subst htape
    have hexec : exec p Action.moveLeft.opcode m.count c = (.ok (), { m.count with pointer }, c) := by
      have hcount : m.count.pointer = pointer + 1 := hpointer
      simp only [exec, Action.opcode, hcount]
    exact leadsTo_cons hp hcode hexec rfl (ih rfl rfl)
  | increment _ ih =>
    subst htape hpointer
    exact leadsTo_cons hp hcode rfl rfl (ih rfl rfl)
  | decrement _ ih =>
    subst htape hpointer
    exact leadsTo_cons hp hcode rfl rfl (ih rfl rfl)

/-- A loop around straight code that comes back to its cell and has taken one off goes round once for
every unit of the cell, from either bracket. It ends behind its last bracket, and every round takes one
step for each action and one for the bracket. -/
theorem leadsTo_countdown (hp : p.hasHeader = true) {start pointer : Nat} {outer : List Nat}
    {actions : List Action} {rest : Code} {round : Tape → Tape}
    (hcode : p.Holds start (Code.loop (.straight actions) rest).bytes)
    (hround : ∀ tape, Makes actions tape pointer (round tape) pointer)
    (hcell : ∀ tape : Tape, (round tape).get pointer = tape.get pointer - 1)
    (hm : StandsAt (.loop (.straight actions) rest) start outer m) (hpointer : m.pointer = pointer)
    {units : Nat} (hunits : m.currentCell.toUInt64.toNat = units) (c : κ) :
    LeadsTo (stepWith p) ((actions.length + 1) * units + 1) (m, c)
      ({ m with
          tape := round^[units] m.tape
          ip := start + actions.length + 2
          loopStack := outer
          steps := m.steps + .ofNat ((actions.length + 1) * units + 1) }, c) := by
  have hlength : (Code.straight actions).opcodes.length = actions.length := by
    rw [Code.opcodes_straight, List.length_map]
  induction units generalizing m with
  | zero =>
    have hzero : m.currentCell = 0 := by
      rw [← ofNat_toNat_toUInt64 m.currentCell, hunits]
      rfl
    have hdone := step_eq_of_loopDone (c := c) hp hcode hm hzero
    rw [hlength] at hdone
    exact (LeadsTo.refl _).head hdone
  | succ units ih =>
    have hne : m.currentCell ≠ 0 := by
      intro hzero
      rw [hzero] at hunits
      contradiction
    obtain ⟨-, hbody, -, -⟩ := holds_loop_bytes.mp hcode
    -- The state behind the bracket, and the one at the last bracket with one unit less.
    set inside : Machine := { m with ip := start + 1, loopStack := start :: outer, steps := m.steps + 1 }
    have hagain : Continues (stepWith p) (m, c) (inside, c) := step_eq_of_loopAgain hp hcode hm hne
    have hactions := leadsTo_of_makes (m := inside) hp (hround m.tape) rfl hpointer hbody c
    set ended := inside.past actions.length (round m.tape) pointer
    have hended : StandsAt (.loop (.straight actions) rest) start outer ended := by
      refine .inr ⟨_, _, rfl, ?_, rfl⟩
      rw [hlength]
      exact Nat.add_right_comm start 1 actions.length
    have hless : ended.currentCell.toUInt64.toNat = units := by
      have hcurrent : ended.currentCell = m.currentCell - 1 := by
        rw [currentCell, currentCell, hpointer]
        exact hcell m.tape
      have hone := toNat_toUInt64_sub_one hne
      rw [hcurrent]
      omega
    have hcount : actions.length + ((actions.length + 1) * units + 1) + 1 =
        (actions.length + 1) * (units + 1) + 1 := by
      rw [Nat.mul_succ]
      omega
    have hsteps : ended.steps + .ofNat ((actions.length + 1) * units + 1) =
        m.steps + .ofNat ((actions.length + 1) * (units + 1) + 1) := by
      rw [← hcount, UInt64.ofNat_add (actions.length + _) 1, UInt64.ofNat_add actions.length]
      change m.steps + .ofNat 1 + .ofNat actions.length + _ = _
      ac_rfl
    have hrounds := (hactions.trans (ih hended rfl hless)).head hagain
    rw [hcount, hsteps] at hrounds
    subst hpointer
    exact hrounds

end Machine

end TapeMachine
