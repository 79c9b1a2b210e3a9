import Mathlib.Order.Bounds.Basic
import TapeMachine.Proofs.PointerReach

/-!
# How many cells a tape holds

A tape starts with a number of cells and gains more of them in equal portions. How many it holds at
any time is known from the farthest that its highest index has ever been, in all states that the
machine has taken since it was made: a reset takes the highest index back and keeps the cells. The
number is the least that the start and whole portions add up to and that goes beyond that peak, as
long as it is a word. The pointer of a machine that is driven by calls stays on the tape and comes to
its end cell by cell, so this is the only way in which the tape gains cells.

A portion that does not fit any more is lost: the sum wraps around, and from then on the tape gains
the one cell that the pointer moves to. Start and portion are words here, as they are in a
configuration, and an index has the bound that is stated with the tape.
-/

namespace TapeMachine

namespace Tape

variable {growth : Nat}

/-- The length of a tape after it has gained cells at its end: a portion more where the sum is a word,
and one cell more where it is not. -/
def extended (growth length : Nat) : Nat :=
  if length + growth < UInt64.size then length + growth else length + 1

/-- A sum that wraps around falls back behind the length that was added to. -/
theorem max_wrapped_eq_extended (hpos : 0 < growth) (hword : growth < UInt64.size) (length : Nat) :
    max ((length + growth) % UInt64.size) (length + 1) = extended growth length := by
  rw [extended]
  split
  · next hfits =>
    rw [Nat.mod_eq_of_lt hfits]
    omega
  · next hover =>
    have hback : (length + growth) % UInt64.size ≤ length := by
      unfold UInt64.size at hword hover ⊢
      omega
    omega

/-- A tape gains its growth, or what the next index needs, when a move to the right passes its end. -/
theorem size_advance (t : Tape) (pointer : Nat) :
    (t.advance pointer).size =
      if pointer + 1 < t.size then t.size
      else max ((t.size + t.growth) % UInt64.size) (pointer + 1 + 1) := by
  have hpadded : (t.advance pointer).size = max t.size (if pointer + 1 < t.size then t.size
      else max ((t.size + t.growth) % UInt64.size) (pointer + 1 + 1)) :=
    size_padded t.cells _
  rw [hpadded]
  split <;> omega

end Tape

namespace Sizing

/-- Both numbers are words, as those of a configuration are. -/
structure Words (s : Sizing) : Prop where
  size : s.size < UInt64.size
  growth : s.growth < UInt64.size

/-- The number of cells that a tape starts with. -/
def start (s : Sizing) : Nat := max s.size 1

/-- The number of cells that a tape gains at a time. -/
def portion (s : Sizing) : Nat := max s.growth 1

/-- The number of cells that is allotted to a tape whose highest index has been at `peak` and no
farther. -/
def allotment (s : Sizing) (peak : Nat) : Nat :=
  if peak < s.start then s.start else s.start + s.portion * ((peak - s.start) / s.portion + 1)

/-- The number of cells that a tape holds when its highest index has been at `peak` and no farther:
what is allotted to the peak if that is a word, and nothing past the peak if not. -/
def held (s : Sizing) (peak : Nat) : Nat :=
  if s.allotment peak < UInt64.size then s.allotment peak else peak + 1

variable (s : Sizing) {peak peak' : Nat}

/-- The number of cells at the start is a word. -/
theorem Words.start_lt {s : Sizing} (h : s.Words) : s.start < UInt64.size :=
  Nat.max_lt.mpr ⟨h.size, by decide⟩

/-- The number of cells in a portion is a word. -/
theorem Words.portion_lt {s : Sizing} (h : s.Words) : s.portion < UInt64.size :=
  Nat.max_lt.mpr ⟨h.growth, by decide⟩

/-- At first the start is held. -/
theorem Words.held_zero {s : Sizing} (h : s.Words) : s.held 0 = s.start := by
  have hstart : 0 < s.start := Nat.lt_of_lt_of_le Nat.zero_lt_one (Nat.le_max_right s.size 1)
  rw [held, allotment, if_pos hstart, if_pos h.start_lt]

/-- A portion has at least one cell. -/
theorem portion_pos : 0 < s.portion := Nat.lt_of_lt_of_le Nat.zero_lt_one (Nat.le_max_right s.growth 1)

/-- The allotment is the least sum of the start and whole portions that lies beyond the peak. -/
theorem isLeast_allotment (peak : Nat) :
    IsLeast {n | peak < n ∧ ∃ k, n = s.start + s.portion * k} (s.allotment peak) := by
  rw [allotment]
  split
  · next hlt =>
    refine ⟨⟨hlt, 0, rfl⟩, fun n hn => ?_⟩
    obtain ⟨-, k, rfl⟩ := hn
    exact Nat.le_add_right _ _
  · next hge =>
    have hbeyond := Nat.lt_mul_div_succ (peak - s.start) s.portion_pos
    refine ⟨⟨by omega, _, rfl⟩, fun n hn => ?_⟩
    obtain ⟨hpeak, k, rfl⟩ := hn
    have hk : (peak - s.start) / s.portion < k := Nat.div_lt_of_lt_mul (by omega)
    exact Nat.add_le_add_left (Nat.mul_le_mul_left s.portion hk) s.start

/-- The peak lies in its allotment. -/
theorem lt_allotment (peak : Nat) : peak < s.allotment peak := (s.isLeast_allotment peak).1.1

/-- The allotment stays the same up to the last index in it. -/
theorem allotment_eq_of_lt (hle : peak ≤ peak') (hlt : peak' < s.allotment peak) :
    s.allotment peak' = s.allotment peak := by
  obtain ⟨⟨-, hsum⟩, hleast⟩ := s.isLeast_allotment peak
  obtain ⟨⟨hlt', hsum'⟩, hleast'⟩ := s.isLeast_allotment peak'
  exact Nat.le_antisymm (hleast' ⟨hlt, hsum⟩) (hleast ⟨by omega, hsum'⟩)

/-- With the first index past an allotment, one more portion belongs to it. -/
theorem allotment_allotment (peak : Nat) :
    s.allotment (s.allotment peak) = s.allotment peak + s.portion := by
  obtain ⟨⟨-, k, hk⟩, -⟩ := s.isLeast_allotment peak
  obtain ⟨⟨hlt, j, hj⟩, hleast⟩ := s.isLeast_allotment (s.allotment peak)
  have hpos := s.portion_pos
  have hsum : s.allotment peak + s.portion = s.start + s.portion * (k + 1) := by
    rw [hk, Nat.mul_add_one, Nat.add_assoc]
  apply Nat.le_antisymm
  · exact hleast ⟨by omega, k + 1, hsum⟩
  · have hkj : k < j := by
      rw [hj, hk] at hlt
      exact Nat.lt_of_mul_lt_mul_left (Nat.lt_of_add_lt_add_left hlt)
    rw [hsum, hj]
    exact Nat.add_le_add_left (Nat.mul_le_mul_left s.portion hkj) s.start

/-- More is allotted to a farther peak. -/
theorem allotment_mono (hle : peak ≤ peak') : s.allotment peak ≤ s.allotment peak' := by
  obtain ⟨⟨hlt, hsum⟩, -⟩ := s.isLeast_allotment peak'
  exact (s.isLeast_allotment peak).2 ⟨by omega, hsum⟩

/-- Past the start, less than a portion is allotted beyond the cell at the peak. -/
theorem allotment_le (hstart : s.start ≤ peak) : s.allotment peak ≤ peak + s.portion := by
  have hwhole := Nat.mul_div_le (peak - s.start) s.portion
  rw [allotment, if_neg (Nat.not_lt.mpr hstart), Nat.mul_add_one]
  omega

/-- An allotment that is a word is held. -/
theorem held_eq_allotment (h : s.allotment peak < UInt64.size) : s.held peak = s.allotment peak := if_pos h

/-- Of an allotment that is no word only the cells up to the peak are held. -/
theorem held_eq_succ (h : ¬s.allotment peak < UInt64.size) : s.held peak = peak + 1 := if_neg h

/-- The peak lies among the cells that are held. -/
theorem lt_held (peak : Nat) : peak < s.held peak := by
  rw [held]
  split
  · exact s.lt_allotment peak
  · exact Nat.lt_add_one peak

/-- As many cells are held up to the last index among them. -/
theorem held_eq_of_lt (hle : peak ≤ peak') (hlt : peak' < s.held peak) : s.held peak' = s.held peak := by
  by_cases hword : s.allotment peak < UInt64.size
  · rw [s.held_eq_allotment hword] at hlt ⊢
    have hsame := s.allotment_eq_of_lt hle hlt
    rw [s.held_eq_allotment (hsame ▸ hword), hsame]
  · rw [s.held_eq_succ hword] at hlt
    obtain rfl : peak = peak' := by omega
    rfl

/-- With the first index past the cells that are held, the tape is extended by a portion, or by one
cell if the portion does not fit. -/
theorem held_held (h : s.Words) (peak : Nat) :
    s.held (s.held peak) = Tape.extended s.portion (s.held peak) := by
  by_cases hword : s.allotment peak < UInt64.size
  · rw [s.held_eq_allotment hword, held, s.allotment_allotment]
    rfl
  · -- A start is a word, so the peak is past the start, and the portions keep being too large.
    have hstart : s.start ≤ peak := by
      by_contra hlt
      rw [allotment, if_pos (Nat.not_le.mp hlt)] at hword
      exact hword h.start_lt
    have hmono := s.allotment_mono (Nat.le_add_right peak 1)
    have hover := s.allotment_le hstart
    rw [s.held_eq_succ hword, s.held_eq_succ (by omega), Tape.extended, if_neg (by omega)]

end Sizing

namespace Touch

variable {t t' : Tape} {pointer next : Nat}

/-- No instruction changes how a tape grows. -/
theorem growth_eq (h : Touch t pointer t' next) : t'.growth = t.growth := by
  cases h <;> rfl

/-- An instruction moves the pointer to the right by one cell at most. -/
theorem next_le (h : Touch t pointer t' next) : next ≤ pointer + 1 := by
  cases h <;> omega

/-- With the pointer on the tape, an instruction adds cells only when it moves the pointer to the first
index past the end, and then it extends the tape by its growth. -/
theorem size_eq (h : Touch t pointer t' next) (hpointer : pointer < t.size) (hpos : 0 < t.growth)
    (hword : t.growth < UInt64.size) :
    t'.size = if next < t.size then t.size else Tape.extended t.growth t.size := by
  cases h with
  | nothing => rw [if_pos hpointer]
  | right =>
    rw [Tape.size_advance]
    split
    · rfl
    · next hend =>
      have hlast : pointer + 1 = t.size := by omega
      rw [hlast]
      exact Tape.max_wrapped_eq_extended hpos hword t.size
  | left => rw [if_pos (by omega)]
  | write f =>
    rw [Tape.size_modify, if_pos hpointer]
    omega

end Touch

namespace Machine

variable {sizing : Sizing} {m m' : Machine} {peak : Nat}

/-- A state of a machine comes behind another by what an instruction can do or by a reset. -/
inductive NextState (m : Machine) : Machine → Prop where
  | touched {m' : Machine} (h : m.Touched m') : NextState m m'
  | reset : NextState m m.reset

/-- What is known of a machine whose highest index has been at `peak` and no farther: the tape is as
long as that makes it, and the pointer has not passed the highest index. -/
structure Allotted (sizing : Sizing) (m : Machine) (peak : Nat) : Prop where
  words : sizing.Words
  growth : m.tape.growth = sizing.portion
  size : m.tape.size = sizing.held peak
  pointer_le : m.pointer ≤ m.tape.highest
  highest_le : m.tape.highest ≤ peak

namespace Allotted

/-- A new machine has not moved. -/
theorem new (h : sizing.Words) : Allotted sizing (.new sizing) 0 where
  words := h
  growth := rfl
  size := by
    rw [h.held_zero]
    exact Array.size_replicate
  pointer_le := Nat.le_refl 0
  highest_le := Nat.le_refl 0

/-- The pointer stands on the tape. -/
theorem pointer_lt (h : Allotted sizing m peak) : m.pointer < m.tape.size := by
  have hpeak := sizing.lt_held peak
  have hpointer := h.pointer_le
  have hhighest := h.highest_le
  rw [h.size]
  omega

/-- From one state to the next a tape is extended if the pointer would stand past its end otherwise,
and stays as long as it is if not. -/
theorem size_of_nextState (h : Allotted sizing m peak) (hnext : NextState m m') :
    m'.tape.size =
      if m'.pointer < m.tape.size then m.tape.size else Tape.extended sizing.portion m.tape.size := by
  cases hnext with
  | touched htouch =>
    have hpos : 0 < m.tape.growth := h.growth ▸ sizing.portion_pos
    have hword : m.tape.growth < UInt64.size := h.growth ▸ h.words.portion_lt
    rw [← h.growth]
    exact htouch.size_eq h.pointer_lt hpos hword
  | reset =>
    have hzero : m.reset.pointer < m.tape.size := Nat.zero_lt_of_lt h.pointer_lt
    rw [if_pos hzero]
    exact Tape.size_reset m.tape

/-- The next state is allotted what belongs to the peak that it may have raised. -/
theorem nextState (h : Allotted sizing m peak) (hnext : NextState m m') :
    Allotted sizing m' (max peak m'.tape.highest) := by
  have hsize := h.size_of_nextState hnext
  have hpointer := h.pointer_le
  have hhighest := h.highest_le
  have hon := h.pointer_lt
  cases hnext with
  | touched htouch =>
    have hraised := htouch.highest_eq hpointer
    have hstep := htouch.next_le
    refine ⟨h.words, htouch.growth_eq.trans h.growth, ?_, by omega, Nat.le_max_right _ _⟩
    rw [hsize, h.size]
    have hpeak := sizing.lt_held peak
    rw [h.size] at hon
    split
    · next hlt => exact (sizing.held_eq_of_lt (Nat.le_max_left _ _) (by omega)).symm
    · next hge =>
      -- The pointer has come to the end cell by cell, so the new peak is the first index past it.
      have hend : max peak m'.tape.highest = sizing.held peak := by omega
      rw [hend, sizing.held_held h.words]
  | reset =>
    have hsame : max peak m.reset.tape.highest = peak := Nat.max_zero peak
    rw [hsame]
    exact ⟨h.words, h.growth, (Tape.size_reset m.tape).trans h.size, Nat.le_refl 0, Nat.zero_le peak⟩

/-- Along states that follow each other, the peak is raised by the highest index of each. -/
theorem along {states : List Machine} (h : Allotted sizing m peak)
    (hchain : (m :: states).IsChain NextState) (hlast : (m :: states).getLast? = some m') :
    Allotted sizing m' ((states.map fun n => n.tape.highest).foldl max peak) := by
  induction states generalizing m peak with
  | nil =>
    obtain rfl : m = m' := Option.some.inj hlast
    exact h
  | cons n states ih =>
    obtain ⟨hnext, hchain⟩ := List.isChain_cons_cons.mp hchain
    rw [List.getLast?_cons_cons] at hlast
    exact ih (h.nextState hnext) hchain hlast

end Allotted

/-- The states that calls make a machine take, one after the other. -/
def statesTaken : List Call → Machine → List Machine
  | [], _ => []
  | call :: calls, m =>
    call.states m ++
      match call.after? m with
      | none => []
      | some m' => statesTaken calls m'

/-- All states of a machine from the present one on. A run that uses up its fuel is the last of its
calls, with the states it has taken by then. -/
def history (calls : List Call) (m : Machine) : List Machine := m :: statesTaken calls m

/-- The farthest that the highest index has been in some states. -/
def peak? (states : List Machine) : Option Nat := (states.map fun m => m.tape.highest).max?

/-- The states of a call follow each other. -/
theorem nextState_states (call : Call) (m : Machine) : (m :: call.states m).IsChain NextState := by
  cases call with
  | reset => exact .cons_cons .reset (.singleton _)
  | _ => exact (Call.touched_states (by simp) m).imp fun _ _ h => .touched h

/-- The states of a machine follow each other. -/
theorem nextState_history (calls : List Call) (m : Machine) : (history calls m).IsChain NextState := by
  induction calls generalizing m with
  | nil => exact .singleton m
  | cons call calls ih =>
    have hstates := nextState_states call m
    rw [history, statesTaken]
    cases hcall : call.after? m with
    | none =>
      dsimp only
      rwa [List.append_nil]
    | some m' =>
      have hrest := ih m'
      rw [← List.cons_append]
      refine hstates.append hrest.tail fun n hn n' hn' => ?_
      rw [Call.getLast?_states hcall] at hn
      obtain rfl := Option.some.inj hn
      exact (List.isChain_cons.mp hrest).1 n' hn'

/-- Calls that end leave the last of the states. -/
theorem getLast?_history {calls : List Call} (h : drive calls m = some m') :
    (history calls m).getLast? = some m' := by
  induction calls generalizing m with
  | nil => exact h
  | cons call calls ih =>
    rw [drive] at h
    rw [history, statesTaken]
    generalize hcall : call.after? m = after at h ⊢
    cases after with
    | none => contradiction
    | some n =>
      have hlast := ih h
      rw [history, List.getLast?_cons] at hlast
      rw [← List.cons_append, List.getLast?_append, Call.getLast?_states hcall, Option.or_some, hlast]

/-- In every state of its history a new machine is allotted what belongs to the peak so far. -/
theorem allotted_of_history {calls : List Call} {seen later : List Machine} (hwords : sizing.Words)
    (hsplit : history calls (.new sizing) = seen ++ m :: later) :
    ∃ peak, peak? (seen ++ [m]) = some peak ∧ Allotted sizing m peak := by
  have hchain := nextState_history calls (.new sizing)
  rw [hsplit, List.append_cons] at hchain
  obtain ⟨states, hstates⟩ : ∃ states, seen ++ [m] = .new sizing :: states := by
    cases seen with
    | nil => exact ⟨[], congrArg (· :: []) (List.cons.inj hsplit).1.symm⟩
    | cons n seen => exact ⟨seen ++ [m], congrArg (· :: (seen ++ [m])) (List.cons.inj hsplit).1.symm⟩
  have hlast : (.new sizing :: states).getLast? = some m := by
    rw [← hstates, List.getLast?_concat]
  have hfirst := hchain.left_of_append
  rw [hstates] at hfirst
  refine ⟨_, ?_, (Allotted.new hwords).along hfirst hlast⟩
  rw [hstates, peak?, List.map_cons, List.max?_cons']
  rfl

/-- From one state to another a tape has gained whole portions, and single cells after them only where
one portion more would not have fitted. -/
def Gained (sizing : Sizing) (m m' : Machine) : Prop :=
  ∃ count extra, m'.tape.size = m.tape.size + sizing.portion * count + extra ∧
    (0 < extra → UInt64.size ≤ m.tape.size + sizing.portion * (count + 1))

instance (sizing : Sizing) : Trans (Gained sizing) (Gained sizing) (Gained sizing) where
  trans := by
    intro m n m' hn hm'
    obtain ⟨count, extra, hsize, hfull⟩ := hn
    obtain ⟨count', extra', hsize', hfull'⟩ := hm'
    by_cases hextra : 0 < extra
    · exact ⟨count, extra + sizing.portion * count' + extra', by omega, fun _ => hfull hextra⟩
    · refine ⟨count + count', extra', ?_, fun h => ?_⟩
      · rw [Nat.mul_add]
        omega
      · have hfull' := hfull' h
        rw [Nat.mul_add_one] at hfull' ⊢
        rw [Nat.mul_add]
        omega

/-- A tape that is extended when the pointer moves past its end gains no more than fits. -/
theorem gained_of_size_eq (h : m'.tape.size =
    if m'.pointer < m.tape.size then m.tape.size else Tape.extended sizing.portion m.tape.size) :
    Gained sizing m m' := by
  rw [Tape.extended] at h
  split at h
  · exact ⟨0, 0, h, fun h => absurd h (Nat.lt_irrefl 0)⟩
  · split at h
    · exact ⟨1, 0, by rw [h, Nat.mul_one]; rfl, fun h => absurd h (Nat.lt_irrefl 0)⟩
    · next hover => exact ⟨0, 1, h, fun _ => by rw [Nat.mul_one]; exact Nat.not_lt.mp hover⟩

/-- A run that never ends gains a portion with the step that moves past the only cell of the start. -/
example : (history [.run 7 (compile "+[>+]") ({} : Terminal)] (.new ⟨0, 4⟩)).map (fun m => m.tape.size) =
    [1, 1, 1, 1, 5, 5, 5, 5, 5] := by
  decide +kernel

end Machine

end TapeMachine
