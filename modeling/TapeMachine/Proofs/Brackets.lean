import Mathlib.Data.List.Induction
import TapeMachine.Source.Balance

/-!
# Words with paired brackets

A letter of a word is an opening bracket, a closing bracket or neither, and the brackets of a word
balance when the word is derived by the grammar of loops. Letters may be characters, instructions or
bytes: all three are read through the instruction they stand for.

A count of the open brackets decides balance. A word that is not balanced but closes nothing it has
not opened leaves brackets open, and these are the ones that no later letter of the word closes.
-/

namespace TapeMachine

/-- The loop bracket that an instruction is, if it is one. -/
def Opcode.bracket? : Opcode → Option Bracket
  | .loopStart => some .opening
  | .loopEnd => some .closing
  | _ => none

/-- The loop bracket that a program byte stands for, if any. -/
def bracketOfByte? (b : UInt8) : Option Bracket := (Opcode.ofByte? b).bind Opcode.bracket?

/-- The loop bracket that a source character stands for, if any. -/
def bracketOfChar? (c : Char) : Option Bracket := (Opcode.ofChar? c).bind Opcode.bracket?

/-- An instruction and its byte are the same bracket. -/
@[simp]
theorem bracketOfByte?_byte (op : Opcode) : bracketOfByte? op.byte = op.bracket? := by
  simp [bracketOfByte?]

/-- Only the loop start is an opening bracket. -/
theorem Opcode.bracket?_eq_opening {op : Opcode} :
    op.bracket? = some .opening ↔ op = .loopStart := by
  cases op <;> simp [bracket?]

/-- Only the loop end is a closing bracket. -/
theorem Opcode.bracket?_eq_closing {op : Opcode} :
    op.bracket? = some .closing ↔ op = .loopEnd := by
  cases op <;> simp [bracket?]

/-- One byte alone is an opening bracket. -/
theorem bracketOfByte?_eq_opening {b : UInt8} :
    bracketOfByte? b = some .opening ↔ b = Opcode.loopStart.byte := by
  refine ⟨fun h => ?_, fun h => h ▸ rfl⟩
  obtain ⟨op, hop, hbracket⟩ := Option.bind_eq_some_iff.mp h
  rw [Opcode.eq_byte_of_ofByte? hop, Opcode.bracket?_eq_opening.mp hbracket]

/-- One byte alone is a closing bracket. -/
theorem bracketOfByte?_eq_closing {b : UInt8} :
    bracketOfByte? b = some .closing ↔ b = Opcode.loopEnd.byte := by
  refine ⟨fun h => ?_, fun h => h ▸ rfl⟩
  obtain ⟨op, hop, hbracket⟩ := Option.bind_eq_some_iff.mp h
  rw [Opcode.eq_byte_of_ofByte? hop, Opcode.bracket?_eq_closing.mp hbracket]

variable {α β : Type}

/-- The words whose brackets balance: every opening bracket is closed by a later one of its own. -/
inductive Balanced (side : α → Option Bracket) : List α → Prop where
  | nil : Balanced side []
  | plain {a : α} {w : List α} (ha : side a = none) (hw : Balanced side w) : Balanced side (a :: w)
  | loop {a b : α} {body rest : List α} (ha : side a = some .opening) (hbody : Balanced side body)
      (hb : side b = some .closing) (hrest : Balanced side rest) :
      Balanced side (a :: (body ++ b :: rest))

/-- Count open brackets through a word, failing at a closing bracket that meets none. -/
def depth? (side : α → Option Bracket) : Nat → List α → Option Nat
  | d, [] => some d
  | d, a :: w =>
    match side a with
    | none => depth? side d w
    | some .opening => depth? side (d + 1) w
    | some .closing =>
      match d with
      | 0 => none
      | d + 1 => depth? side d w

/--
A word that starts at a position leaves brackets open at the listed positions, innermost first: each
open bracket is followed by balanced text up to the next one.
-/
def LeavesOpen (side : α → Option Bracket) (pos : Nat) : List Nat → List α → Prop
  | [], w => Balanced side w
  | i :: opened, w =>
    ∃ u a v, w = u ++ a :: v ∧ side a = some .opening ∧ i = pos + u.length ∧ Balanced side v ∧
      LeavesOpen side pos opened u

section Grammar

variable {side : α → Option Bracket}

/-- Balanced words can be put one behind the other. -/
theorem Balanced.append {u v : List α} (hu : Balanced side u) (hv : Balanced side v) :
    Balanced side (u ++ v) := by
  induction hu with
  | nil => exact hv
  | plain ha _ ih => exact .plain ha ih
  | loop ha hbody hb _ _ ih =>
    rw [List.cons_append, List.append_assoc, List.cons_append]
    exact .loop ha hbody hb ih

/-- A balanced word leaves the number of open brackets as it was. -/
theorem depth?_append_of_balanced {u : List α} (hu : Balanced side u) (d : Nat) (v : List α) :
    depth? side d (u ++ v) = depth? side d v := by
  induction hu generalizing d v with
  | nil => rfl
  | plain ha _ ih =>
    simp only [List.cons_append, depth?, ha]
    exact ih d v
  | loop ha _ hb _ ihbody ihrest =>
    simp only [List.cons_append, List.append_assoc, depth?, ha]
    rw [ihbody]
    simp only [depth?, hb]
    exact ihrest d v

/-- A word that closes `d` open brackets is `d` balanced words, each closed, and one more. -/
def ClosesAll (side : α → Option Bracket) : Nat → List α → Prop
  | 0, w => Balanced side w
  | d + 1, w => ∃ u b v, w = u ++ b :: v ∧ Balanced side u ∧ side b = some .closing ∧ ClosesAll side d v

/-- A balanced word can be put in front of a word that closes open brackets. -/
theorem ClosesAll.prepend {u w : List α} {d : Nat} (hu : Balanced side u) (hw : ClosesAll side d w) :
    ClosesAll side d (u ++ w) := by
  cases d with
  | zero => exact Balanced.append hu hw
  | succ d =>
    obtain ⟨v, b, rest, rfl, hv, hb, hrest⟩ := hw
    exact ⟨u ++ v, b, rest, by simp, hu.append hv, hb, hrest⟩

/-- A count that comes down to zero closes every bracket that was open. -/
theorem closesAll_of_depth? {d : Nat} {w : List α} (h : depth? side d w = some 0) :
    ClosesAll side d w := by
  induction w generalizing d with
  | nil =>
    obtain rfl : d = 0 := by simpa [depth?] using h
    exact .nil
  | cons a w ih =>
    cases hside : side a with
    | none =>
      simp only [depth?, hside] at h
      exact (ih h).prepend (.plain hside .nil)
    | some bracket =>
      cases bracket with
      | opening =>
        -- The bracket opened here is the first one that the rest closes.
        simp only [depth?, hside] at h
        obtain ⟨u, b, v, rfl, hu, hb, hv⟩ := ih h
        simpa using hv.prepend (.loop hside hu hb .nil)
      | closing =>
        cases d with
        | zero => simp [depth?, hside] at h
        | succ d =>
          simp only [depth?, hside] at h
          exact ⟨[], a, w, rfl, .nil, hside, ih h⟩

/-- The count decides the grammar. -/
theorem balanced_iff_depth? {w : List α} : Balanced side w ↔ depth? side 0 w = some 0 := by
  refine ⟨fun hw => ?_, closesAll_of_depth?⟩
  simpa [depth?] using depth?_append_of_balanced hw 0 []

/-- Counting through two words is counting through one and then the other. -/
theorem depth?_append (d : Nat) (u v : List α) :
    depth? side d (u ++ v) = (depth? side d u).bind fun e => depth? side e v := by
  induction u generalizing d with
  | nil => rfl
  | cons a u ih =>
    simp only [List.cons_append, depth?]
    split
    · exact ih d
    · exact ih (d + 1)
    · cases d with
      | zero => rfl
      | succ d => exact ih d

/-- More open brackets at the start are as many more at the end. -/
theorem depth?_add {d e : Nat} {w : List α} (h : depth? side d w = some e) (k : Nat) :
    depth? side (d + k) w = some (e + k) := by
  induction w generalizing d with
  | nil =>
    obtain rfl : d = e := by simpa [depth?] using h
    rfl
  | cons a w ih =>
    simp only [depth?] at h ⊢
    split at h
    · exact ih h
    · rw [Nat.add_right_comm]
      exact ih h
    · cases d with
      | zero => contradiction
      | succ d =>
        rw [Nat.add_right_comm]
        exact ih h

/-- An opening bracket of a balanced word is closed further on in the word. -/
theorem Balanced.exists_closing {u v : List α} {a : α} (h : Balanced side (u ++ a :: v))
    (ha : side a = some .opening) :
    ∃ body b rest, v = body ++ b :: rest ∧ Balanced side body ∧ side b = some .closing := by
  have hdepth := balanced_iff_depth?.mp h
  rw [depth?_append] at hdepth
  obtain ⟨d, -, hd⟩ := Option.bind_eq_some_iff.mp hdepth
  simp only [depth?, ha] at hd
  obtain ⟨body, b, rest, rfl, hbody, hb, -⟩ := closesAll_of_depth? hd
  exact ⟨body, b, rest, rfl, hbody, hb⟩

/-- A word that can be counted through from zero closes nothing behind a balanced start. -/
theorem not_closing_of_depth? {body rest : List α} {b : α} {d : Nat} (hbody : Balanced side body)
    (hb : side b = some .closing) : depth? side 0 (body ++ b :: rest) ≠ some d := by
  rw [depth?_append_of_balanced hbody]
  simp [depth?, hb]

/-- How many letters of a word are brackets of one side. -/
def countSide (side : α → Option Bracket) (bracket : Bracket) (w : List α) : Nat :=
  w.countP fun a => side a = some bracket

@[simp]
theorem countSide_nil (bracket : Bracket) : countSide side bracket [] = 0 := rfl

@[simp]
theorem countSide_cons (bracket : Bracket) (a : α) (w : List α) :
    countSide side bracket (a :: w) =
      countSide side bracket w + if side a = some bracket then 1 else 0 := by
  simp [countSide, List.countP_cons]

@[simp]
theorem countSide_append (bracket : Bracket) (u v : List α) :
    countSide side bracket (u ++ v) = countSide side bracket u + countSide side bracket v :=
  List.countP_append

/-- Where one letter alone is a bracket of a side, the brackets are counted by that letter. -/
theorem countSide_eq_count [DecidableEq α] {bracket : Bracket} {a : α}
    (h : ∀ {b}, side b = some bracket ↔ b = a) (w : List α) :
    countSide side bracket w = w.count a := by
  apply List.countP_congr
  intro b _
  simp [h]

/-- The number of open brackets is the difference of two counts, and counting fails where a start of the
word closes more than was open. -/
theorem depth?_eq_some_iff_countSide {d e : Nat} {w : List α} :
    depth? side d w = some e ↔
      (∀ u, u <+: w → countSide side .closing u ≤ d + countSide side .opening u) ∧
        d + countSide side .opening w = e + countSide side .closing w := by
  induction w generalizing d with
  | nil => simp [depth?]
  | cons a w ih =>
    have hstarts (d' : Nat) (hstep : ∀ u : List α,
        countSide side .closing (a :: u) ≤ d + countSide side .opening (a :: u) ↔
          countSide side .closing u ≤ d' + countSide side .opening u) :
        (∀ u, u <+: a :: w → countSide side .closing u ≤ d + countSide side .opening u) ↔
          ∀ u, u <+: w → countSide side .closing u ≤ d' + countSide side .opening u := by
      constructor
      · intro h u hu
        exact (hstep u).mp (h _ (List.cons_prefix_cons.mpr ⟨rfl, hu⟩))
      · intro h u hu
        rcases List.prefix_cons_iff.mp hu with rfl | ⟨v, rfl, hv⟩
        · simp
        · exact (hstep v).mpr (h v hv)
    cases hside : side a with
    | none =>
      simp only [depth?, hside]
      rw [ih, hstarts d (by simp [hside])]
      simp [hside]
    | some bracket =>
      cases bracket with
      | opening =>
        simp only [depth?, hside]
        rw [ih]
        simp only [countSide_cons, hside, Option.some.injEq, reduceCtorEq, ↓reduceIte] at hstarts ⊢
        rw [hstarts (d + 1) (fun u => by omega)]
        apply and_congr_right
        intro _
        omega
      | closing =>
        cases d with
        | zero =>
          simp only [depth?, hside, reduceCtorEq, false_iff]
          intro h
          have hfirst := h.1 [a] (by simp)
          simp [hside] at hfirst
        | succ d =>
          simp only [depth?, hside]
          rw [ih]
          simp only [countSide_cons, hside, Option.some.injEq, reduceCtorEq, ↓reduceIte] at hstarts ⊢
          rw [hstarts d (fun u => by omega)]
          apply and_congr_right
          intro _
          omega

/-- If no start of a word closes exactly one bracket more than it opens, none closes more than it opens:
the counts change by one letter at a time, and the closing ones cannot get ahead unnoticed. -/
theorem countSide_closing_le {w : List α}
    (h : ∀ u, u <+: w → countSide side .closing u ≠ countSide side .opening u + 1) {u : List α}
    (hu : u <+: w) : countSide side .closing u ≤ countSide side .opening u := by
  induction u using List.reverseRecOn with
  | nil => simp
  | append_singleton u a ih =>
    have hle := ih ((List.prefix_append u [a]).trans hu)
    have hne := h _ hu
    cases hside : side a with
    | none => simpa [hside] using hle
    | some bracket =>
      cases bracket with
      | opening =>
        simp only [countSide_append, countSide_cons, countSide_nil, hside, Option.some.injEq, reduceCtorEq,
          ↓reduceIte]
        omega
      | closing =>
        simp only [countSide_append, countSide_cons, countSide_nil, hside, Option.some.injEq, reduceCtorEq,
          ↓reduceIte] at hne ⊢
        omega

/-- A closing bracket behind a balanced word is the first letter with which more is closed than was
opened, and there is no other such letter. -/
theorem balanced_snoc_iff {w : List α} {b : α} :
    Balanced side w ∧ side b = some .closing ↔
      (∀ u, u <+: w → countSide side .closing u ≠ countSide side .opening u + 1) ∧
        countSide side .closing (w ++ [b]) = countSide side .opening (w ++ [b]) + 1 := by
  rw [balanced_iff_depth?, depth?_eq_some_iff_countSide]
  constructor
  · intro h
    obtain ⟨⟨hstarts, hcount⟩, hb⟩ := h
    refine ⟨fun u hu => ?_, ?_⟩
    · have hle := hstarts u hu
      omega
    · simp only [countSide_append, countSide_cons, countSide_nil, hb, Option.some.injEq, reduceCtorEq,
        ↓reduceIte]
      omega
  · intro h
    obtain ⟨hnever, hlast⟩ := h
    have hword := countSide_closing_le hnever (List.prefix_refl w)
    cases hside : side b with
    | none =>
      simp only [countSide_append, countSide_cons, countSide_nil, hside, reduceCtorEq, ↓reduceIte] at hlast
      omega
    | some bracket =>
      simp only [countSide_append, countSide_cons, countSide_nil, hside, Option.some.injEq] at hlast
      cases bracket with
      | opening =>
        simp only [reduceCtorEq, ↓reduceIte] at hlast
        omega
      | closing =>
        simp only [reduceCtorEq, ↓reduceIte] at hlast
        refine ⟨⟨fun u hu => ?_, by omega⟩, rfl⟩
        have hle := countSide_closing_le hnever hu
        omega

/-- Dropping letters that are no brackets and renaming the others changes no count. -/
theorem depth?_filterMap (f : α → Option β) (side : β → Option Bracket) (d : Nat) (w : List α) :
    depth? side d (w.filterMap f) = depth? (fun a => (f a).bind side) d w := by
  induction w generalizing d with
  | nil => rfl
  | cons a w ih =>
    cases hf : f a with
    | none => simp [depth?, hf, ih]
    | some b =>
      simp only [List.filterMap_cons, hf, depth?, Option.bind_some]
      split
      · exact ih d
      · exact ih (d + 1)
      · cases d with
        | zero => rfl
        | succ d => exact ih d

/-- A word balances exactly when the instructions that its letters stand for do. -/
theorem balanced_filterMap_iff {f : α → Option β} {side : β → Option Bracket} {w : List α} :
    Balanced side (w.filterMap f) ↔ Balanced (fun a => (f a).bind side) w := by
  rw [balanced_iff_depth?, balanced_iff_depth?, depth?_filterMap]

/-- Instructions balance exactly when their bytes do. -/
theorem balanced_map_byte_iff {ops : List Opcode} :
    Balanced bracketOfByte? (ops.map Opcode.byte) ↔ Balanced Opcode.bracket? ops := by
  rw [← List.filterMap_eq_map, balanced_filterMap_iff]
  simp

/-- An instruction stands in a list exactly when its byte stands among the bytes. -/
theorem byte_mem_map_iff {op : Opcode} {ops : List Opcode} :
    op.byte ∈ ops.map Opcode.byte ↔ op ∈ ops := by
  refine ⟨fun h => ?_, List.mem_map_of_mem⟩
  obtain ⟨op', hop', hbyte⟩ := List.mem_map.mp h
  have heq : op' = op := by simpa using congrArg Opcode.ofByte? hbyte
  exact heq ▸ hop'

/-- Balanced text does not change which brackets are open. -/
theorem LeavesOpen.append {pos : Nat} {opened : List Nat} {u v : List α}
    (hu : LeavesOpen side pos opened u) (hv : Balanced side v) :
    LeavesOpen side pos opened (u ++ v) := by
  cases opened with
  | nil => exact Balanced.append hu hv
  | cons i opened =>
    obtain ⟨u, a, w, rfl, ha, hi, hw, hu⟩ := hu
    exact ⟨u, a, w ++ v, by simp, ha, hi, hw.append hv, hu⟩

/-- An opening bracket becomes the innermost open one. -/
theorem LeavesOpen.push {pos : Nat} {opened : List Nat} {u : List α} {a : α}
    (hu : LeavesOpen side pos opened u) (ha : side a = some .opening) :
    LeavesOpen side pos ((pos + u.length) :: opened) (u ++ [a]) :=
  ⟨u, a, [], rfl, ha, rfl, .nil, hu⟩

/-- A closing bracket closes the innermost open one. -/
theorem LeavesOpen.pop {pos i : Nat} {opened : List Nat} {u : List α} {b : α}
    (hu : LeavesOpen side pos (i :: opened) u) (hb : side b = some .closing) :
    LeavesOpen side pos opened (u ++ [b]) := by
  obtain ⟨u, a, v, rfl, ha, -, hv, hu⟩ := hu
  rw [List.append_assoc, List.cons_append]
  exact hu.append (.loop ha hv hb .nil)

/-- The open brackets lie in the word, each behind the ones around it. -/
theorem LeavesOpen.pairwise {pos : Nat} {opened : List Nat} {w : List α}
    (h : LeavesOpen side pos opened w) :
    opened.Pairwise (· > ·) ∧ ∀ i ∈ opened, pos ≤ i ∧ i < pos + w.length := by
  induction opened generalizing w with
  | nil => exact ⟨.nil, by simp⟩
  | cons i opened ih =>
    obtain ⟨u, a, v, rfl, -, rfl, -, hu⟩ := h
    obtain ⟨hsorted, hbounds⟩ := ih hu
    refine ⟨List.pairwise_cons.mpr ⟨fun j hj => (hbounds j hj).2, hsorted⟩, fun j hj => ?_⟩
    rcases List.mem_cons.mp hj with rfl | hj
    · simp
    · have := hbounds j hj
      simp only [List.length_append, List.length_cons]
      omega

/-- As many brackets are counted as are left open. -/
theorem LeavesOpen.depth?_eq {pos : Nat} {opened : List Nat} {w : List α}
    (h : LeavesOpen side pos opened w) : depth? side 0 w = some opened.length := by
  induction opened generalizing w with
  | nil => exact balanced_iff_depth?.mp h
  | cons i opened ih =>
    obtain ⟨u, a, v, rfl, ha, -, hv, hu⟩ := h
    rw [depth?_append, ih hu, Option.bind_some]
    simp only [depth?, ha]
    simpa using depth?_add (balanced_iff_depth?.mp hv) (opened.length + 1)

/-- A word that closes nothing it has not opened leaves certain brackets open. -/
theorem exists_leavesOpen (pos : Nat) {w : List α} {d : Nat} (h : depth? side 0 w = some d) :
    ∃ opened, LeavesOpen side pos opened w := by
  induction w using List.reverseRecOn generalizing d with
  | nil => exact ⟨[], .nil⟩
  | append_singleton w a ih =>
    rw [depth?_append] at h
    obtain ⟨e, he, ha⟩ := Option.bind_eq_some_iff.mp h
    obtain ⟨opened, hopened⟩ := ih he
    cases hside : side a with
    | none => exact ⟨opened, hopened.append (.plain hside .nil)⟩
    | some bracket =>
      cases bracket with
      | opening => exact ⟨_, hopened.push hside⟩
      | closing =>
        cases opened with
        | nil =>
          rw [hopened.depth?_eq] at he
          obtain rfl : 0 = e := by simpa using he
          simp [depth?, hside] at ha
        | cons i opened => exact ⟨opened, hopened.pop hside⟩

/-- From an open bracket on, a word closes nothing that it has not opened. -/
theorem LeavesOpen.split_of_mem {pos i : Nat} {opened : List Nat} {w : List α}
    (h : LeavesOpen side pos opened w) (hi : i ∈ opened) :
    ∃ u a v d, w = u ++ a :: v ∧ side a = some .opening ∧ i = pos + u.length ∧
      depth? side 0 v = some d := by
  induction opened generalizing w with
  | nil => contradiction
  | cons j opened ih =>
    obtain ⟨u, a, v, rfl, ha, rfl, hv, hu⟩ := h
    rcases List.mem_cons.mp hi with rfl | hi
    · exact ⟨u, a, v, 0, rfl, ha, rfl, balanced_iff_depth?.mp hv⟩
    · obtain ⟨u', a', v', d, rfl, ha', rfl, hd⟩ := ih hu hi
      refine ⟨u', a', v' ++ a :: v, d + 1, by simp, ha', rfl, ?_⟩
      rw [depth?_append, hd, Option.bind_some]
      simp only [depth?, ha]
      simpa using depth?_add (balanced_iff_depth?.mp hv) (d + 1)

/-- An opening bracket that the word does not close is left open. -/
theorem LeavesOpen.mem_of_split {pos : Nat} {opened : List Nat} {u v : List α} {a : α}
    (h : LeavesOpen side pos opened (u ++ a :: v)) (ha : side a = some .opening)
    (hv : ∀ body b rest, v = body ++ b :: rest → Balanced side body → side b ≠ some .closing) :
    pos + u.length ∈ opened := by
  induction opened generalizing v with
  | nil =>
    obtain ⟨body, b, rest, hsplit, hbody, hb⟩ := Balanced.exists_closing h ha
    exact absurd hb (hv body b rest hsplit hbody)
  | cons i opened ih =>
    obtain ⟨u', a', v', hsplit, -, rfl, hv', hu'⟩ := h
    -- The letter stands inside the last balanced part, before it, or is the open bracket itself.
    rcases List.append_eq_append_iff.mp hsplit with ⟨t, rfl, ht⟩ | ⟨t, rfl, ht⟩
    · cases t with
      | nil => simp
      | cons x t =>
        obtain ⟨rfl, rfl⟩ := List.cons_eq_cons.mp ht
        apply List.mem_cons_of_mem
        apply ih hu'
        intro body b rest hsplit hbody
        exact hv body b (rest ++ a' :: v') (by simp [hsplit]) hbody
    · cases t with
      | nil => simp
      | cons x t =>
        obtain ⟨rfl, rfl⟩ := List.cons_eq_cons.mp ht
        obtain ⟨body, b, rest, hclosed, hbody, hb⟩ := Balanced.exists_closing hv' ha
        exact absurd hb (hv body b rest hclosed hbody)

/-- Every closing bracket of a word that leaves brackets open has its opening one in the word. -/
theorem LeavesOpen.exists_opening {pos : Nat} {opened : List Nat} {u v : List α} {b : α}
    (h : LeavesOpen side pos opened (u ++ b :: v)) (hb : side b = some .closing) :
    ∃ front a body, u = front ++ a :: body ∧ side a = some .opening ∧ Balanced side body := by
  have hdepth := h.depth?_eq
  rw [depth?_append] at hdepth
  obtain ⟨d, hd, hrest⟩ := Option.bind_eq_some_iff.mp hdepth
  obtain ⟨before, hbefore⟩ := exists_leavesOpen pos hd
  cases before with
  | nil =>
    rw [hbefore.depth?_eq] at hd
    obtain rfl : 0 = d := by simpa using hd
    simp [depth?, hb] at hrest
  | cons i before =>
    obtain ⟨front, a, body, rfl, ha, -, hbody, -⟩ := hbefore
    exact ⟨front, a, body, rfl, ha, hbody⟩

/-- A closing bracket has one opening bracket only. -/
theorem opening_unique {u v u' v' : List α} {a a' : α} (h : u ++ a :: v = u' ++ a' :: v')
    (ha : side a = some .opening) (ha' : side a' = some .opening) (hv : Balanced side v)
    (hv' : Balanced side v') : u = u' := by
  -- An opening bracket inside balanced text is closed there, before the text ends.
  have inside {t t' : List α} {x : α} (hx : side x = some .opening) (ht' : Balanced side t') :
      ¬ Balanced side (t ++ x :: t') := by
    intro ht
    obtain ⟨body, b, rest, rfl, hbody, hb⟩ := ht.exists_closing hx
    exact not_closing_of_depth? hbody hb (balanced_iff_depth?.mp ht')
  rcases List.append_eq_append_iff.mp h with ⟨t, rfl, ht⟩ | ⟨t, rfl, ht⟩
  · cases t with
    | nil => simp
    | cons x t =>
      obtain ⟨rfl, rfl⟩ := List.cons_eq_cons.mp ht
      exact absurd hv (inside ha' hv')
  · cases t with
    | nil => simp
    | cons x t =>
      obtain ⟨rfl, rfl⟩ := List.cons_eq_cons.mp ht
      exact absurd hv' (inside ha hv)

/-- A balanced start of a word ends at one closing bracket only. -/
theorem closing_unique {u v u' v' : List α} {b b' : α} (h : u ++ b :: v = u' ++ b' :: v')
    (hu : Balanced side u) (hb : side b = some .closing) (hu' : Balanced side u')
    (hb' : side b' = some .closing) : u = u' ∧ v = v' := by
  rcases List.append_eq_append_iff.mp h with ⟨t, rfl, ht⟩ | ⟨t, rfl, ht⟩
  · cases t with
    | nil => exact ⟨by simp, (List.cons_eq_cons.mp ht).2⟩
    | cons x t =>
      obtain ⟨rfl, rfl⟩ := List.cons_eq_cons.mp ht
      exact absurd (balanced_iff_depth?.mp hu') (not_closing_of_depth? hu hb)
  · cases t with
    | nil => exact ⟨by simp, (List.cons_eq_cons.mp ht).2.symm⟩
    | cons x t =>
      obtain ⟨rfl, rfl⟩ := List.cons_eq_cons.mp ht
      exact absurd (balanced_iff_depth?.mp hu) (not_closing_of_depth? hu' hb')

end Grammar

end TapeMachine
