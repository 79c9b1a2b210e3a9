import Mathlib.Data.List.Forall2
import Mathlib.Data.List.TakeWhile
import TapeMachine.Proofs.JsonNumeral

/-!
# Which texts are JSON arrays of bytes

An array of bytes is a bracket, numerals with commas between them and a bracket, with blanks around
every token. Reading accepts exactly these texts: it takes all of a numeral, since what stands behind
it in an array can neither continue it nor turn it into a fraction or a power, and whatever else it
meets is an error. What is written is such a text without blanks, and so it is read back.
-/

namespace TapeMachine.Json

/-- Nothing but spaces, tabs, newlines and carriage returns. -/
def Blanks (text : List UInt8) : Prop := ∀ b ∈ text, b ∈ [32, 9, 10, 13]

/-- Tokens one after the other, with blanks around them. -/
inductive Spaced : List (List UInt8) → List UInt8 → Prop where
  | nil {blanks : List UInt8} (hblanks : Blanks blanks) : Spaced [] blanks
  | cons {blanks token text : List UInt8} {tokens : List (List UInt8)} (hblanks : Blanks blanks)
      (h : Spaced tokens text) : Spaced (token :: tokens) (blanks ++ (token ++ text))

/-- The tokens of an array: brackets around numerals with commas between them. -/
def arrayTokens (numerals : List (List UInt8)) : List (List UInt8) :=
  [91] :: (numerals.intersperse [44] ++ [[93]])

/-- Numerals that stand for bytes. -/
abbrev Numerals : List UInt8 → List (List UInt8) → Prop := List.Forall₂ fun b => Numeral b.toNat

/-- A text that is an array of bytes. -/
def ArrayText (bytes text : List UInt8) : Prop :=
  ∃ numerals, Numerals bytes numerals ∧ Spaced (arrayTokens numerals) text

/-- The tokens of an array behind its first numeral. -/
def moreTokens : List (List UInt8) → List (List UInt8)
  | [] => [[93]]
  | numeral :: numerals => [44] :: numeral :: moreTokens numerals

/-- Behind the first numeral every further one has a comma before it. -/
theorem intersperse_append (numeral : List UInt8) (numerals : List (List UInt8)) :
    (numeral :: numerals).intersperse [44] ++ [[93]] = numeral :: moreTokens numerals := by
  induction numerals generalizing numeral with
  | nil => rfl
  | cons next numerals ih =>
    rw [List.intersperse_cons_cons, List.cons_append, List.cons_append, ih, moreTokens]

/-- The blanks are those that reading passes over. -/
theorem isBlank_iff {b : UInt8} : isBlank b = true ↔ b ∈ [32, 9, 10, 13] := by
  simp only [isBlank, Bool.or_eq_true, beq_iff_eq, List.mem_cons, List.not_mem_nil, or_false]
  tauto

/-- Blanks are passed over up to the next byte. -/
theorem Reader.skipBlanks_append {blanks rest : List UInt8} {b : UInt8} (hblanks : Blanks blanks)
    (hb : isBlank b = false) (offset : Nat) :
    Reader.skipBlanks ⟨offset, blanks ++ b :: rest⟩ = ⟨offset + blanks.length, b :: rest⟩ := by
  have hall : ∀ b ∈ blanks, isBlank b = true := fun b hb => isBlank_iff.mpr (hblanks b hb)
  simp [Reader.skipBlanks, Reader.skip, List.takeWhile_append_of_pos hall, hb]

/-- Blanks are passed over up to the end. -/
theorem Reader.rest_skipBlanks {r : Reader} (hblanks : Blanks r.rest) : r.skipBlanks.rest = [] := by
  have hall : ∀ b ∈ r.rest, isBlank b = true := fun b hb => isBlank_iff.mpr (hblanks b hb)
  simp [Reader.skipBlanks, Reader.skip, List.takeWhile_eq_self_iff.mpr hall]

/-- What is passed over is blank. -/
theorem Reader.exists_blanks (r : Reader) :
    ∃ blanks, Blanks blanks ∧ r.rest = blanks ++ r.skipBlanks.rest := by
  refine ⟨r.rest.takeWhile isBlank, ?_, ?_⟩
  · intro b hb
    exact isBlank_iff.mp (List.mem_takeWhile_imp hb)
  · exact (List.prefix_iff_eq_append.mp (List.takeWhile_prefix isBlank)).symm

section Accepted

variable {bytes text : List UInt8} {numerals : List (List UInt8)}

/-- Behind a numeral comes a blank, a comma or the end of the array. -/
theorem endsNumber_of_spaced (h : Spaced (moreTokens numerals) text) : EndsNumber text := by
  have hends {blanks rest : List UInt8} {c : UInt8} (hblanks : Blanks blanks) (hc : c = 44 ∨ c = 93) :
      EndsNumber (blanks ++ (c :: rest)) := by
    intro b hb
    have hmem : b ∈ [32, 9, 10, 13] ∨ b = 44 ∨ b = 93 := by
      cases blanks with
      | nil =>
        obtain rfl : c = b := by simpa using hb
        exact .inr hc
      | cons blank blanks =>
        obtain rfl : blank = b := by simpa using hb
        exact .inl (hblanks blank List.mem_cons_self)
    simp only [List.mem_cons, List.not_mem_nil, or_false, or_assoc] at hmem
    rcases hmem with rfl | rfl | rfl | rfl | rfl | rfl <;> decide
  cases numerals with
  | nil =>
    cases h with
    | cons hblanks _ => exact hends hblanks (.inr rfl)
  | cons numeral numerals =>
    cases h with
    | cons hblanks _ => exact hends hblanks (.inl rfl)

/-- Every numeral behind the first takes at least the byte of its comma. -/
theorem length_lt_of_spaced (h : Spaced (moreTokens numerals) text) :
    numerals.length < text.length := by
  induction numerals generalizing text with
  | nil =>
    cases h with
    | cons hblanks _ =>
      rw [List.singleton_append, List.length_append]
      exact Nat.lt_of_lt_of_le (Nat.succ_pos _) (Nat.le_add_left _ _)
  | cons numeral numerals ih =>
    cases h with
    | cons hblanks h =>
      cases h with
      | cons hblanks' h =>
        have := ih h
        simp only [List.length_cons, List.length_append]
        omega

/-- A bracket ends the array. -/
theorem readMore_bracket {blanks : List UInt8} (hblanks : Blanks blanks) (rest : List UInt8)
    (fuel : Nat) (before : List UInt8) (offset : Nat) :
    readMore (fuel + 1) before ⟨offset, blanks ++ 93 :: rest⟩ =
      .ok (before.reverse, ⟨offset + blanks.length + 1, rest⟩) := by
  rw [readMore, Reader.skipBlanks_append hblanks (by decide)]
  rfl

/-- A comma and a numeral behind it are one round. -/
theorem readMore_comma {b : UInt8} {blanks blanks' numeral rest : List UInt8}
    (hblanks : Blanks blanks) (hblanks' : Blanks blanks') (hnumeral : Numeral b.toNat numeral)
    (hrest : EndsNumber rest) (fuel : Nat) (before : List UInt8) (offset : Nat) :
    ∃ offset', readMore (fuel + 1) before ⟨offset, blanks ++ 44 :: (blanks' ++ (numeral ++ rest))⟩ =
      readMore fuel (b :: before) ⟨offset', rest⟩ := by
  have helement := readElement_numeral hnumeral hrest (offset + blanks.length + 1 + blanks'.length)
  obtain ⟨d, ds, rfl, hd⟩ := hnumeral.exists_cons
  obtain ⟨-, hend, hblank⟩ := ne_of_isDigit hd
  refine ⟨offset + blanks.length + 1 + blanks'.length + (d :: ds).length, ?_⟩
  rw [readMore, Reader.skipBlanks_append hblanks (by decide)]
  simp only [Reader.skip, List.drop_one, List.tail_cons, List.cons_append,
    Reader.skipBlanks_append hblanks' hblank] at helement ⊢
  split
  · contradiction
  · next heq => exact absurd (List.cons.inj heq).1 hend
  · rw [helement]

/-- The elements behind the first are read when there is fuel for each of them. -/
theorem readMore_spaced (hnumerals : Numerals bytes numerals)
    (h : Spaced (moreTokens numerals) text) {fuel : Nat} (hfuel : numerals.length ≤ fuel)
    (before : List UInt8) (offset : Nat) :
    ∃ r, readMore (fuel + 1) before ⟨offset, text⟩ = .ok (before.reverse ++ bytes, r) ∧ Blanks r.rest := by
  induction hnumerals generalizing text fuel before offset with
  | nil =>
    cases h with
    | cons hblanks h =>
      cases h with
      | nil hend =>
        rw [List.append_nil]
        exact ⟨_, readMore_bracket hblanks _ _ before offset, hend⟩
  | @cons b numeral bytes numerals hnumeral _ ih =>
    obtain ⟨fuel, rfl⟩ := Nat.exists_eq_add_of_le' (Nat.le_trans (Nat.succ_pos _) hfuel)
    cases h with
    | cons hblanks h =>
      cases h with
      | cons hblanks' h =>
        obtain ⟨offset', hround⟩ := readMore_comma hblanks hblanks' hnumeral
          (endsNumber_of_spaced h) (fuel + 1) before offset
        obtain ⟨r, hr, hrest⟩ := ih h (Nat.le_of_succ_le_succ hfuel) (b :: before) offset'
        refine ⟨r, ?_, hrest⟩
        rw [List.singleton_append, hround, hr, List.reverse_cons, List.append_assoc,
          List.singleton_append]

/-- The elements of an array are read up to its bracket. -/
theorem readElements_spaced (hnumerals : Numerals bytes numerals)
    (h : Spaced (numerals.intersperse [44] ++ [[93]]) text) (offset : Nat) :
    ∃ r, readElements ⟨offset, text⟩ = .ok (bytes, r) ∧ Blanks r.rest := by
  cases hnumerals with
  | nil =>
    cases h with
    | cons hblanks h =>
      cases h with
      | nil hend =>
        rw [readElements, List.singleton_append, Reader.skipBlanks_append hblanks (by decide)]
        exact ⟨_, rfl, hend⟩
  | @cons b numeral bytes numerals hnumeral hnumerals =>
    rw [intersperse_append] at h
    cases h with
    | @cons blanks _ rest _ hblanks h =>
      have helement := readElement_numeral hnumeral (endsNumber_of_spaced h) (offset + blanks.length)
      obtain ⟨d, ds, rfl, hd⟩ := hnumeral.exists_cons
      obtain ⟨-, hend, hblank⟩ := ne_of_isDigit hd
      have hlength := length_lt_of_spaced h
      rw [readElements]
      simp only [List.cons_append, Reader.skipBlanks_append hblanks hblank] at helement ⊢
      split
      · contradiction
      · next heq => exact absurd (List.cons.inj heq).1 hend
      · rw [helement]
        dsimp only
        obtain ⟨fuel, hfuel⟩ := Nat.exists_eq_add_of_le' (Nat.zero_lt_of_lt hlength)
        rw [hfuel] at hlength ⊢
        exact readMore_spaced hnumerals h (Nat.le_of_lt_succ hlength) [b] _

/-- An array of bytes is read as these bytes. -/
theorem readBytes_of_arrayText (h : ArrayText bytes text) : readBytes text = .ok bytes := by
  obtain ⟨numerals, hnumerals, hspaced⟩ := h
  cases hspaced with
  | @cons blanks _ rest _ hblanks hspaced =>
    obtain ⟨r, hread, hend⟩ := readElements_spaced hnumerals hspaced (0 + blanks.length + 1)
    rw [readBytes, readArray, List.singleton_append, Reader.skipBlanks_append hblanks (by decide)]
    simp only [Reader.skip, List.drop_one, List.tail_cons, hread, Reader.rest_skipBlanks hend]
    rfl

end Accepted

section Refused

variable {bytes before : List UInt8} {r r' : Reader}

/-- What is read behind the first element is numerals up to a bracket. -/
theorem of_readMore {fuel : Nat} (h : readMore fuel before r = .ok (bytes, r'))
    (hend : Blanks r'.rest) :
    ∃ more numerals, bytes = before.reverse ++ more ∧ Numerals more numerals ∧
      Spaced (moreTokens numerals) r.rest := by
  induction fuel generalizing before r with
  | zero => contradiction
  | succ fuel ih =>
    obtain ⟨blanks, hblanks, hrest⟩ := r.exists_blanks
    unfold readMore at h
    dsimp only at h
    split at h
    · contradiction
    · next rest hbracket =>
      obtain ⟨rfl, rfl⟩ : before.reverse = bytes ∧ r.skipBlanks.skip 1 = r' := by simpa using h
      refine ⟨[], [], by simp, .nil, ?_⟩
      rw [hrest, hbracket]
      exact .cons hblanks (.nil (by simpa [Reader.skip, hbracket] using hend))
    · next rest hcomma =>
      obtain ⟨blanks', hblanks', hrest'⟩ := (r.skipBlanks.skip 1).exists_blanks
      split at h
      · contradiction
      · contradiction
      · split at h
        · contradiction
        · next b behind helement =>
          obtain ⟨numeral, hnumeral, heq⟩ := of_readElement helement
          obtain ⟨more, numerals, rfl, hnumerals, hspaced⟩ := ih h
          refine ⟨b :: more, numeral :: numerals, by simp, .cons hnumeral hnumerals, ?_⟩
          have hskip : rest = blanks' ++ (numeral ++ behind.rest) := by
            rw [← heq, ← hrest', Reader.skip, hcomma, List.drop_one, List.tail_cons]
          rw [hrest, hcomma, hskip]
          exact .cons hblanks (.cons hblanks' hspaced)
    · contradiction

/-- What is read as the elements of an array is numerals up to a bracket. -/
theorem of_readElements (h : readElements r = .ok (bytes, r')) (hend : Blanks r'.rest) :
    ∃ numerals, Numerals bytes numerals ∧ Spaced (numerals.intersperse [44] ++ [[93]]) r.rest := by
  obtain ⟨blanks, hblanks, hrest⟩ := r.exists_blanks
  unfold readElements at h
  dsimp only at h
  split at h
  · contradiction
  · next rest hbracket =>
    obtain ⟨rfl, rfl⟩ : [] = bytes ∧ r.skipBlanks.skip 1 = r' := by simpa using h
    refine ⟨[], .nil, ?_⟩
    rw [hrest, hbracket]
    exact .cons hblanks (.nil (by simpa [Reader.skip, hbracket] using hend))
  · split at h
    · contradiction
    · next b behind helement =>
      obtain ⟨numeral, hnumeral, heq⟩ := of_readElement helement
      obtain ⟨more, numerals, rfl, hnumerals, hspaced⟩ := of_readMore h hend
      refine ⟨numeral :: numerals, .cons hnumeral hnumerals, ?_⟩
      rw [hrest, heq, intersperse_append]
      exact .cons hblanks hspaced

/-- What is read as bytes is an array of them. -/
theorem arrayText_of_readBytes {text : List UInt8} (h : readBytes text = .ok bytes) :
    ArrayText bytes text := by
  obtain ⟨blanks, hblanks, hrest⟩ := (⟨0, text⟩ : Reader).exists_blanks
  unfold readBytes readArray at h
  dsimp only at h hrest
  generalize Reader.skipBlanks ⟨0, text⟩ = r at h hrest
  split at h
  · contradiction
  · next bytes' hread =>
    obtain rfl := Except.ok.inj h
    split at hread
    · contradiction
    · next rest hbracket =>
      split at hread
      · contradiction
      · next behind helements =>
        split at hread
        · next hempty =>
          obtain rfl := Except.ok.inj hread
          obtain ⟨blanks', hblanks', hrest'⟩ := behind.exists_blanks
          rw [List.isEmpty_iff.mp hempty, List.append_nil] at hrest'
          obtain ⟨numerals, hnumerals, hspaced⟩ := of_readElements helements (hrest' ▸ hblanks')
          refine ⟨numerals, hnumerals, ?_⟩
          rw [hrest, hbracket]
          rw [Reader.skip, hbracket] at hspaced
          exact .cons hblanks hspaced
        · contradiction
    · exact absurd hread unexpected_ne_ok

end Refused

/-- Exactly the arrays of bytes are read, as the bytes that they stand for. -/
theorem readBytes_eq_ok_iff {text bytes : List UInt8} :
    readBytes text = .ok bytes ↔ ArrayText bytes text :=
  ⟨arrayText_of_readBytes, readBytes_of_arrayText⟩

/-- There need be no blanks. -/
theorem blanks_nil : Blanks [] := by
  simp [Blanks]

/-- Tokens stand one after the other without blanks, too. -/
theorem spaced_flatten (tokens : List (List UInt8)) : Spaced tokens tokens.flatten := by
  induction tokens with
  | nil => exact .nil blanks_nil
  | cons token tokens ih => exact .cons blanks_nil ih

/-- The elements behind the first are written as their tokens. -/
theorem writeMore_eq (bs : List UInt8) : writeMore bs = (moreTokens (bs.map decimal)).flatten := by
  induction bs with
  | nil => rfl
  | cons b bs ih =>
    rw [writeMore, ih]
    rfl

/-- What is written is an array of bytes. -/
theorem arrayText_writeBytes (bs : List UInt8) : ArrayText bs (writeBytes bs) := by
  refine ⟨bs.map decimal, ?_, ?_⟩
  · rw [Numerals, List.forall₂_map_right_iff, List.forall₂_same]
    exact fun b _ => numeral_decimal b
  · have hwrite : writeBytes bs = (arrayTokens (bs.map decimal)).flatten := by
      cases bs with
      | nil => rfl
      | cons b bs =>
        rw [writeBytes, writeMore_eq, arrayTokens, List.map_cons, intersperse_append]
        rfl
    rw [hwrite]
    exact spaced_flatten _

/-- Reading bytes gives back what was written. -/
theorem readBytes_writeBytes (bs : List UInt8) : readBytes (writeBytes bs) = .ok bs :=
  readBytes_eq_ok_iff.mpr (arrayText_writeBytes bs)

end TapeMachine.Json
