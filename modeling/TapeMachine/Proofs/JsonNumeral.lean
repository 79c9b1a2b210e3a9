import TapeMachine.Json.Bytes

/-!
# Numerals for bytes

An element of an array of bytes is a plain decimal numeral. The reader of numbers accepts more than
that, but everything with a sign, a fraction, an exponent or more digits than fit in 64 bits comes
out as a number of another kind, and those are no bytes.
-/

namespace TapeMachine.Json

/-- The number that digits stand for, behind digits that stand for `acc`. -/
def valueFrom (acc : Nat) (digits : List UInt8) : Nat := digits.foldl (fun acc b => acc * 10 + digit b) acc

/-- A decimal numeral without sign, leading zero, fraction and exponent, and its value. -/
structure Numeral (n : Nat) (text : List UInt8) : Prop where
  ne_nil : text ≠ []
  digits : ∀ b ∈ text, isDigit b = true
  leading : text.head? = some 48 → text = [48]
  value : valueFrom 0 text = n

/-- What may stand behind an integer: the end, or a byte that does not belong to a number. -/
def EndsNumber (rest : List UInt8) : Prop :=
  ∀ b ∈ rest.head?, isDigit b = false ∧ b ≠ 46 ∧ b ≠ 101 ∧ b ≠ 69

/-- Behind one digit that stands for itself, the others count on from it. -/
theorem valueFrom_zero_cons (b : UInt8) (bs : List UInt8) :
    valueFrom 0 (b :: bs) = valueFrom (digit b) bs := by
  rw [valueFrom, List.foldl_cons, Nat.zero_mul, Nat.zero_add, valueFrom]

/-- More digits never make a number smaller. -/
theorem le_valueFrom (acc : Nat) (digits : List UInt8) : acc ≤ valueFrom acc digits := by
  induction digits generalizing acc with
  | nil => exact Nat.le_refl acc
  | cons b bs ih => exact Nat.le_trans (by omega) (ih (acc * 10 + digit b))

/-- Digits are a numeral if zero leads nothing but itself. -/
theorem numeral_cons {n : Nat} {d : UInt8} {ds : List UInt8} (hd : isDigit d = true)
    (hds : ∀ b ∈ ds, isDigit b = true) (hzero : d = 48 → ds = [])
    (hvalue : valueFrom (digit d) ds = n) : Numeral n (d :: ds) := by
  refine ⟨by simp, List.forall_mem_cons.mpr ⟨hd, hds⟩, fun hhead => ?_, ?_⟩
  · obtain rfl : d = 48 := Option.some.inj hhead
    rw [hzero rfl]
  · rw [valueFrom_zero_cons, hvalue]

/-- A numeral starts with a digit. -/
theorem Numeral.exists_cons {n : Nat} {text : List UInt8} (h : Numeral n text) :
    ∃ b bs, text = b :: bs ∧ isDigit b = true := by
  obtain ⟨b, bs, rfl⟩ := List.exists_cons_of_ne_nil h.ne_nil
  exact ⟨b, bs, rfl, h.digits b List.mem_cons_self⟩

/-- A number below ten has a digit, which is zero for zero only. -/
theorem digit_add {n : UInt8} (hn : n.toNat < 10) :
    isDigit (48 + n) = true ∧ digit (48 + n) = n.toNat ∧ (48 + n = 48 → n.toNat = 0) := by
  have hnat : (48 + n).toNat = 48 + n.toNat := by
    rw [UInt8.toNat_add]
    exact Nat.mod_eq_of_lt (show 48 + n.toNat < 256 by omega)
  refine ⟨?_, ?_, fun h => ?_⟩
  · simp only [isDigit, Bool.and_eq_true, decide_eq_true_eq, UInt8.le_iff_toNat_le, hnat]
    exact ⟨Nat.le_add_right 48 _, show 48 + n.toNat ≤ 57 by omega⟩
  · rw [digit, hnat, Nat.add_sub_cancel_left]
  · rw [h] at hnat
    exact (Nat.add_left_cancel (m := 0) hnat).symm

/-- A byte is written as a numeral without a leading zero that stands for it. -/
theorem numeral_decimal (b : UInt8) : Numeral b.toNat (decimal b) := by
  have hb := b.toNat_lt
  unfold decimal
  split
  · next hten =>
    have hten : b.toNat < 10 := UInt8.lt_iff_toNat_lt.mp hten
    obtain ⟨hdigit, hvalue, -⟩ := digit_add hten
    exact numeral_cons hdigit (by simp) (fun _ => rfl) hvalue
  · next hten =>
    have hten : 10 ≤ b.toNat := by simpa [UInt8.lt_iff_toNat_lt] using hten
    have hones : (b % 10).toNat = b.toNat % 10 := UInt8.toNat_mod b 10
    obtain ⟨hdigit₀, hvalue₀, -⟩ := digit_add (n := b % 10) (by omega)
    split
    · next hhundred =>
      have hhundred : b.toNat < 100 := UInt8.lt_iff_toNat_lt.mp hhundred
      have htens : (b / 10).toNat = b.toNat / 10 := UInt8.toNat_div b 10
      obtain ⟨hdigit₁, hvalue₁, hzero⟩ := digit_add (n := b / 10) (by omega)
      refine numeral_cons hdigit₁ (by simp [hdigit₀]) (fun h => ?_) ?_
      · have := hzero h
        omega
      · simp only [valueFrom, List.foldl_cons, List.foldl_nil, hvalue₀, hvalue₁]
        omega
    · next hhundred =>
      have hhundred : 100 ≤ b.toNat := by simpa [UInt8.lt_iff_toNat_lt] using hhundred
      have hhundreds : (b / 100).toNat = b.toNat / 100 := UInt8.toNat_div b 100
      have htens : (b / 10 % 10).toNat = b.toNat / 10 % 10 := by
        rw [UInt8.toNat_mod, UInt8.toNat_div]
        rfl
      obtain ⟨hdigit₁, hvalue₁, -⟩ := digit_add (n := b / 10 % 10) (by omega)
      obtain ⟨hdigit₂, hvalue₂, hzero⟩ := digit_add (n := b / 100) (by omega)
      refine numeral_cons hdigit₂ (by simp [hdigit₀, hdigit₁]) (fun h => ?_) ?_
      · have := hzero h
        omega
      · simp only [valueFrom, List.foldl_cons, List.foldl_nil, hvalue₀, hvalue₁, hvalue₂]
        omega

section Accepted

/-- No digit comes next behind an integer. -/
theorem EndsNumber.atDigit {rest : List UInt8} (h : EndsNumber rest) (offset : Nat) :
    Reader.atDigit ⟨offset, rest⟩ = false := by
  cases rest with
  | nil => rfl
  | cons b bs => simpa [Reader.atDigit] using (h b rfl).1

/-- Digits are read to their end when the number stays within the limit. -/
theorem readWithin_digits {limit acc : Nat} {digits rest : List UInt8}
    (hdigits : ∀ b ∈ digits, isDigit b = true) (hlimit : valueFrom acc digits ≤ limit)
    (hrest : EndsNumber rest) (offset : Nat) :
    readWithin limit acc offset (digits ++ rest) =
      (valueFrom acc digits, ⟨offset + digits.length, rest⟩) := by
  induction digits generalizing acc offset with
  | nil =>
    cases rest with
    | nil => rfl
    | cons b bs => simp [readWithin, (hrest b rfl).1, valueFrom]
  | cons b bs ih =>
    obtain ⟨hb, hbs⟩ := List.forall_mem_cons.mp hdigits
    have hle : acc * 10 + digit b ≤ limit := Nat.le_trans (le_valueFrom _ bs) hlimit
    rw [List.cons_append, readWithin, if_pos (by simp [hb, hle]), ih hbs hlimit, List.length_cons]
    simp only [valueFrom, List.foldl_cons]
    congr 2
    omega

/-- A number whose digits are over is an integer. -/
theorem finishInteger_ends {rest : List UInt8} (hrest : EndsNumber rest) (n offset : Nat) :
    finishInteger true n ⟨offset, rest⟩ = .ok (.natural n, ⟨offset, rest⟩) := by
  cases rest with
  | nil => rfl
  | cons b bs =>
    obtain ⟨-, hpoint, hlower, hupper⟩ := hrest b rfl
    unfold finishInteger
    split
    · next h => exact absurd (List.cons.inj h).1 hpoint
    · next h => exact absurd (List.cons.inj h).1 hlower
    · next h => exact absurd (List.cons.inj h).1 hupper
    · rfl

/-- A numeral is read as the number it stands for. -/
theorem readNumber_numeral {n : Nat} {text rest : List UInt8} (h : Numeral n text)
    (hlimit : n ≤ maxSignificand) (hrest : EndsNumber rest) (offset : Nat) :
    readNumber true ⟨offset, text ++ rest⟩ = .ok (.natural n, ⟨offset + text.length, rest⟩) := by
  obtain ⟨b, bs, rfl, hb⟩ := h.exists_cons
  obtain rfl := h.value
  rw [valueFrom_zero_cons] at hlimit ⊢
  by_cases hzero : b = 48
  · obtain rfl : bs = [] := by simpa [hzero] using h.leading
    subst hzero
    simp only [readNumber, List.cons_append, List.nil_append, if_true, Reader.skip, List.drop_one,
      List.tail_cons, hrest.atDigit]
    exact finishInteger_ends hrest 0 (offset + 1)
  · have hbs := (List.forall_mem_cons.mp h.digits).2
    simp only [readNumber, List.cons_append, if_neg hzero, hb, if_true,
      readWithin_digits hbs hlimit hrest, hrest.atDigit]
    rw [List.length_cons, Nat.add_comm bs.length, ← Nat.add_assoc]
    exact finishInteger_ends hrest _ _

/-- A digit is not a minus sign, a blank or the end of an array. -/
theorem ne_of_isDigit {b : UInt8} (hb : isDigit b = true) :
    b ≠ 45 ∧ b ≠ 93 ∧ isBlank b = false := by
  refine ⟨fun h => ?_, fun h => ?_, ?_⟩
  · rw [h] at hb
    contradiction
  · rw [h] at hb
    contradiction
  · cases hblank : isBlank b with
    | false => rfl
    | true =>
      simp only [isBlank, Bool.or_eq_true, beq_iff_eq] at hblank
      rcases hblank with ((h | h) | h) | h <;> rw [h] at hb <;> contradiction

/-- The numeral of a byte is read as an element. -/
theorem readElement_numeral {b : UInt8} {text rest : List UInt8} (h : Numeral b.toNat text)
    (hrest : EndsNumber rest) (offset : Nat) :
    readElement ⟨offset, text ++ rest⟩ = .ok (b, ⟨offset + text.length, rest⟩) := by
  have hb := b.toNat_lt
  have hlimit : b.toNat ≤ maxSignificand := by
    rw [maxSignificand]
    omega
  have hnumber := readNumber_numeral h hlimit hrest offset
  obtain ⟨d, ds, rfl, hd⟩ := h.exists_cons
  rw [readElement]
  simp only [List.cons_append] at hnumber ⊢
  rw [if_neg (ne_of_isDigit hd).1, if_pos hd, hnumber]
  dsimp only
  rw [toByte, if_pos hb, UInt8.ofNat_toNat]

end Accepted

section Refused

variable {positive : Bool} {n significand : Nat} {exponent : Int} {r r' : Reader}

/-- A number that was scaled is no integer. -/
theorem finishFloat_ne_natural :
    finishFloat positive significand exponent r ≠ .ok (.natural n, r') := by
  intro h
  unfold finishFloat at h
  split at h
  · contradiction
  · simp [signed] at h

/-- A number with an exponent is no integer. -/
theorem readExponent_ne_natural :
    readExponent positive significand exponent r ≠ .ok (.natural n, r') := by
  intro h
  unfold readExponent at h
  dsimp only at h
  -- Whether a sign stands in front of the exponent does not matter here.
  generalize ((r.skip 1).rest.head? == some 45) = negative at h
  generalize (if negative || (r.skip 1).rest.head? == some 43 then (r.skip 1).skip 1 else r.skip 1) =
    behind at h
  split at h
  · contradiction
  · split at h
    · split at h
      · split at h
        · contradiction
        · simp [signed] at h
      · exact finishFloat_ne_natural h
    · contradiction

/-- What follows a fraction does not make it an integer. -/
theorem finishFraction_ne_natural :
    finishFraction positive significand exponent r ≠ .ok (.natural n, r') := by
  intro h
  unfold finishFraction at h
  split at h
  · exact readExponent_ne_natural h
  · exact readExponent_ne_natural h
  · exact finishFloat_ne_natural h

/-- A number with a fraction is no integer. -/
theorem readFraction_ne_natural :
    readFraction positive significand exponent r ≠ .ok (.natural n, r') := by
  intro h
  unfold readFraction at h
  dsimp only at h
  split at h
  · exact finishFraction_ne_natural h
  · split at h <;> contradiction

/-- A number with too many digits is no integer. -/
theorem finishLong_ne_natural :
    finishLong positive significand exponent r ≠ .ok (.natural n, r') := by
  intro h
  unfold finishLong at h
  split at h
  · exact readFraction_ne_natural h
  · exact finishFraction_ne_natural h

/-- A natural number has no sign, and nothing behind its digits is used up. -/
theorem of_finishInteger (h : finishInteger positive significand r = .ok (.natural n, r')) :
    positive = true ∧ significand = n ∧ r = r' := by
  unfold finishInteger at h
  split at h
  · exact absurd h readFraction_ne_natural
  · exact absurd h readExponent_ne_natural
  · exact absurd h readExponent_ne_natural
  · obtain ⟨hn, rfl⟩ : integer positive significand = .natural n ∧ r = r' := by simpa using h
    unfold integer at hn
    split at hn
    · next hpositive => exact ⟨hpositive, Number.natural.inj hn, rfl⟩
    · split at hn <;> contradiction

/-- What is read within a limit is digits, and their number. -/
theorem of_readWithin {limit acc offset value : Nat} {text : List UInt8}
    (h : readWithin limit acc offset text = (value, r)) :
    ∃ digits, text = digits ++ r.rest ∧ (∀ b ∈ digits, isDigit b = true) ∧
      valueFrom acc digits = value := by
  induction text generalizing acc offset with
  | nil =>
    obtain ⟨rfl, rfl⟩ : acc = value ∧ ⟨offset, []⟩ = r := by simpa [readWithin] using h
    exact ⟨[], rfl, by simp, rfl⟩
  | cons b bs ih =>
    simp only [readWithin] at h
    split at h
    · next hdigit =>
      obtain ⟨digits, rfl, hdigits, rfl⟩ := ih h
      rw [Bool.and_eq_true] at hdigit
      exact ⟨b :: digits, rfl, List.forall_mem_cons.mpr ⟨hdigit.1, hdigits⟩, rfl⟩
    · obtain ⟨rfl, rfl⟩ : acc = value ∧ ⟨offset, b :: bs⟩ = r := by simpa using h
      exact ⟨[], rfl, by simp, rfl⟩

/-- Natural numbers are read from numerals without a sign, and nothing behind them is used up. -/
theorem of_readNumber (h : readNumber positive r = .ok (.natural n, r')) :
    positive = true ∧ ∃ text, Numeral n text ∧ r.rest = text ++ r'.rest := by
  unfold readNumber at h
  split at h
  · contradiction
  · next b bs hrest =>
    split at h
    · next hzero =>
      subst hzero
      dsimp only at h
      split at h
      · contradiction
      · obtain ⟨hpositive, rfl, rfl⟩ := of_finishInteger h
        refine ⟨hpositive, [48], numeral_cons (by decide) (by simp) (fun _ => rfl) rfl, ?_⟩
        rw [hrest, Reader.skip, hrest]
        rfl
    · next hzero =>
      split at h
      · next hb =>
        generalize hwithin : readWithin maxSignificand (digit b) (r.offset + 1) bs = result at h
        obtain ⟨value, behind⟩ := result
        dsimp only at h
        split at h
        · exact absurd h finishLong_ne_natural
        · obtain ⟨hpositive, rfl, rfl⟩ := of_finishInteger h
          obtain ⟨digits, rfl, hdigits, hvalue⟩ := of_readWithin hwithin
          exact ⟨hpositive, b :: digits, numeral_cons hb hdigits (absurd · hzero) hvalue, hrest⟩
      · contradiction

/-- A byte is a natural number that is small enough. -/
theorem toByte_eq_ok_iff {number : Number} {b : UInt8} :
    toByte number r = .ok (b, r') ↔ number = .natural b.toNat ∧ r = r' := by
  refine ⟨fun h => ?_, fun h => ?_⟩
  · unfold toByte at h
    split at h
    · split at h
      · next hsmall =>
        obtain ⟨rfl, rfl⟩ : UInt8.ofNat _ = b ∧ r = r' := by simpa using h
        exact ⟨by rw [UInt8.toNat_ofNat_of_lt' hsmall], rfl⟩
      · contradiction
    · contradiction
    · contradiction
  · obtain ⟨rfl, rfl⟩ := h
    rw [toByte, if_pos b.toNat_lt, UInt8.ofNat_toNat]

/-- A value that is not wanted is refused, whatever it is. -/
theorem unexpected_ne_ok {α : Type} {wanted : Wanted} {x : α} : unexpected wanted r ≠ .ok x := by
  have hbind {β : Type} {result : Except Failure β} {fault : β → Fault} {behind : β → Reader} :
      (result >>= fun y => (behind y).fail (fault y)) ≠ .ok x := by
    cases result <;> simp [Reader.fail, bind, Except.bind]
  unfold unexpected
  split
  · exact hbind
  · exact hbind
  · exact hbind
  · exact hbind
  · exact hbind
  · simp [Reader.fail]
  · simp [Reader.fail]
  · split
    · exact hbind
    · simp [Reader.failNext]
  · simp [Reader.failNext]

/-- Elements are read from the numerals of bytes. -/
theorem of_readElement {b : UInt8} (h : readElement r = .ok (b, r')) :
    ∃ text, Numeral b.toNat text ∧ r.rest = text ++ r'.rest := by
  unfold readElement at h
  split at h
  · contradiction
  · split at h
    · split at h
      · contradiction
      · next hnumber =>
        obtain ⟨rfl, rfl⟩ := toByte_eq_ok_iff.mp h
        exact absurd (of_readNumber hnumber).1 (by simp)
    · split at h
      · split at h
        · contradiction
        · next hnumber =>
          obtain ⟨rfl, rfl⟩ := toByte_eq_ok_iff.mp h
          exact (of_readNumber hnumber).2
      · exact absurd h unexpected_ne_ok

end Refused

end TapeMachine.Json
