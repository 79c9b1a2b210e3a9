import Mathlib.Data.Nat.Digits.Lemmas
import TapeMachine.Proofs.Base64

/-!
# Which texts are base64

A text of symbols and padding stands for bytes if the bits of its symbols, six each, are the bits of
the bytes, eight each, and two zeros for every byte of padding. Taken as digits of one large number,
symbols and bytes then differ by a power of two only, so the bytes are unique, and a text stands for
some bytes exactly if the bits left over in its last symbol are zero.
-/

namespace TapeMachine.Base64

/-- The symbols, in the order of the numbers they stand for. -/
def alphabet : List UInt8 :=
  "ABCDEFGHIJKLMNOPQRSTUVWXYZabcdefghijklmnopqrstuvwxyz0123456789+/".toList.map Char.toUInt8

/-- Symbols of the alphabet with at most two bytes of padding behind them. -/
structure Padded (text symbols : List UInt8) (padding : Nat) : Prop where
  text_eq : text = symbols ++ List.replicate padding pad
  padding_le : padding ≤ 2
  mem_alphabet : ∀ b ∈ symbols, b ∈ alphabet

/-- Groups of four in which the last symbol has zeros where the padding leaves bits over. -/
def Canonical (text : List UInt8) : Prop :=
  text.length % 4 = 0 ∧ ∃ symbols padding, Padded text symbols padding ∧
    ∀ b ∈ symbols.getLast?, 4 ^ padding ∣ alphabet.idxOf b

/-- The number that digits stand for, the highest first. -/
def number (base : Nat) (digits : List Nat) : Nat := Nat.ofDigits base digits.reverse

/-- The bits of the symbols are the bits of the bytes and two zeros for every byte of padding. -/
def StandsFor (text bytes : List UInt8) : Prop :=
  ∃ symbols padding, Padded text symbols padding ∧
    6 * symbols.length = 8 * bytes.length + 2 * padding ∧
      number 64 (symbols.map alphabet.idxOf) = number 256 (bytes.map UInt8.toNat) * 4 ^ padding

/-- Digits in front count as often as there are numbers with the other digits. -/
theorem number_append (base : Nat) (ds es : List Nat) :
    number base (ds ++ es) = number base ds * base ^ es.length + number base es := by
  rw [number, List.reverse_append, Nat.ofDigits_append, List.length_reverse, Nat.mul_comm,
    Nat.add_comm, number, number]

/-- The alphabet holds the symbols of the numbers below sixty-four. -/
theorem alphabet_eq : alphabet = (List.range 64).map symbol := by decide

/-- A symbol has the place of its number in the alphabet. -/
theorem idxOf_symbol : ∀ v < 64, alphabet.idxOf (symbol v) = v := by decide

/-- The numbers of symbols are found again. -/
theorem map_idxOf_symbol {vs : List Nat} (hvs : ∀ v ∈ vs, v < 64) :
    (vs.map symbol).map alphabet.idxOf = vs := by
  rw [List.map_map]
  exact (List.map_congr_left fun v hv => idxOf_symbol v (hvs v hv)).trans vs.map_id'

/-- Bytes of the alphabet are the symbols of numbers. -/
theorem exists_map_symbol {symbols : List UInt8} (h : ∀ b ∈ symbols, b ∈ alphabet) :
    ∃ vs : List Nat, (∀ v ∈ vs, v < 64) ∧ symbols = vs.map symbol := by
  induction symbols with
  | nil => exact ⟨[], by simp, rfl⟩
  | cons b symbols ih =>
    obtain ⟨hb, hsymbols⟩ := List.forall_mem_cons.mp h
    obtain ⟨vs, hvs, rfl⟩ := ih hsymbols
    rw [alphabet_eq] at hb
    obtain ⟨v, hv, rfl⟩ := List.mem_map.mp hb
    exact ⟨v :: vs, List.forall_mem_cons.mpr ⟨List.mem_range.mp hv, hvs⟩, rfl⟩

/-- Six bits for each symbol are eight for each byte and two for each byte of padding. -/
theorem pow_eq {count length padding : Nat} (h : 6 * count = 8 * length + 2 * padding) :
    64 ^ count = 256 ^ length * 4 ^ padding := by
  calc
    64 ^ count = 2 ^ (6 * count) := by rw [Nat.pow_mul]
    _ = 256 ^ length * 4 ^ padding := by rw [h, Nat.pow_add, Nat.pow_mul, Nat.pow_mul]

/-- Numbers of symbols with padding behind them stand for bytes. -/
theorem standsFor_map_symbol (vs : List Nat) (padding : Nat) {bytes : List UInt8}
    (hvs : ∀ v ∈ vs, v < 64) (hpadding : padding ≤ 2)
    (hlength : 6 * vs.length = 8 * bytes.length + 2 * padding)
    (hnumber : number 64 vs = number 256 (bytes.map UInt8.toNat) * 4 ^ padding) :
    StandsFor (vs.map symbol ++ List.replicate padding pad) bytes := by
  refine ⟨vs.map symbol, padding, ⟨rfl, hpadding, ?_⟩, ?_, ?_⟩
  · intro b hb
    rw [alphabet_eq]
    obtain ⟨v, hv, rfl⟩ := List.mem_map.mp hb
    exact List.mem_map_of_mem (List.mem_range.mpr (hvs v hv))
  · rw [List.length_map, hlength]
  · rw [map_idxOf_symbol hvs, hnumber]

/-- What is written stands for the bytes. -/
theorem standsFor_encode (bytes : List UInt8) : StandsFor (encode bytes) bytes := by
  induction bytes using encode.induct with
  | case1 => exact standsFor_map_symbol [] 0 (by simp) (by simp) rfl rfl
  | case2 a =>
    have ha := a.toNat_lt
    refine standsFor_map_symbol [_, _] 2 ?_ (by simp) rfl ?_
    · simp only [List.forall_mem_cons]
      exact ⟨by omega, by omega, by simp⟩
    · simp only [number, List.map, List.reverse_cons, List.reverse_nil, List.nil_append,
        List.cons_append, Nat.ofDigits_cons, Nat.ofDigits_nil]
      omega
  | case3 a b =>
    have ha := a.toNat_lt
    have hb := b.toNat_lt
    refine standsFor_map_symbol [_, _, _] 1 ?_ (by simp) rfl ?_
    · simp only [List.forall_mem_cons]
      exact ⟨by omega, by omega, by omega, by simp⟩
    · simp only [number, List.map, List.reverse_cons, List.reverse_nil, List.nil_append,
        List.cons_append, Nat.ofDigits_cons, Nat.ofDigits_nil]
      omega
  | case4 a b c rest ih =>
    have ha := a.toNat_lt
    have hb := b.toNat_lt
    have hc := c.toNat_lt
    obtain ⟨symbols, padding, ⟨htext, hle, hmem⟩, hlength, hnumber⟩ := ih
    obtain ⟨vs, hvs, rfl⟩ := exists_map_symbol hmem
    rw [map_idxOf_symbol hvs] at hnumber
    rw [List.length_map] at hlength
    rw [encode, htext]
    refine standsFor_map_symbol ([_, _, _, _] ++ vs) padding ?_ hle ?_ ?_
    · simp only [List.cons_append, List.nil_append, List.forall_mem_cons]
      exact ⟨by omega, by omega, by omega, by omega, hvs⟩
    · simp only [List.cons_append, List.nil_append, List.length_cons]
      omega
    · have hgroup : number 64 [a.toNat / 4, a.toNat % 4 * 16 + b.toNat / 16,
          b.toNat % 16 * 4 + c.toNat / 64, c.toNat % 64] = number 256 [a.toNat, b.toNat, c.toNat] := by
        simp only [number, List.reverse_cons, List.reverse_nil, List.nil_append, List.cons_append,
          Nat.ofDigits_cons, Nat.ofDigits_nil]
        omega
      rw [number_append, hgroup, hnumber, pow_eq hlength, ← Nat.mul_assoc, ← Nat.add_mul]
      change _ = number 256 ([a.toNat, b.toNat, c.toNat] ++ rest.map UInt8.toNat) * _
      rw [number_append, List.length_map]

/-- Every number that is small enough is the number of so many bytes. -/
theorem exists_bytes {n length : Nat} (h : n < 256 ^ length) :
    ∃ bytes : List UInt8, bytes.length = length ∧ number 256 (bytes.map UInt8.toNat) = n := by
  refine ⟨(Nat.digitsAppend 256 length n).reverse.map UInt8.ofNat, ?_, ?_⟩
  · rw [List.length_map, List.length_reverse, Nat.length_digitsAppend (by decide) length h]
  · have hsame : ((Nat.digitsAppend 256 length n).reverse.map UInt8.ofNat).map UInt8.toNat =
        (Nat.digitsAppend 256 length n).reverse := by
      rw [List.map_map]
      refine (List.map_congr_left fun d hd => ?_).trans (List.map_id' _)
      exact UInt8.toNat_ofNat_of_lt'
        (Nat.lt_of_mem_digitsAppend (by decide) length d (List.mem_reverse.mp hd))
    rw [hsame, number, List.reverse_reverse, Nat.digitsAppend, Nat.ofDigits_append_replicate_zero,
      Nat.ofDigits_digits]

/-- A text stands for the bytes that it is written from, and for nothing else. -/
theorem standsFor_iff {text bytes : List UInt8} : StandsFor text bytes ↔ encode bytes = text := by
  refine ⟨fun h => ?_, fun h => h ▸ standsFor_encode bytes⟩
  obtain ⟨symbols, padding, ⟨rfl, hle, hmem⟩, hlength, hnumber⟩ := h
  obtain ⟨symbols', padding', ⟨htext', hle', hmem'⟩, hlength', hnumber'⟩ := standsFor_encode bytes
  obtain ⟨vs, hvs, rfl⟩ := exists_map_symbol hmem
  obtain ⟨ws, hws, rfl⟩ := exists_map_symbol hmem'
  rw [map_idxOf_symbol hvs] at hnumber
  rw [map_idxOf_symbol hws] at hnumber'
  rw [List.length_map] at hlength hlength'
  -- The number of bytes leaves one choice for the padding.
  obtain rfl : padding = padding' := by omega
  have hdigits : vs.reverse = ws.reverse := by
    refine Nat.ofDigits_inj_of_len_eq (b := 64) (by decide) ?_ ?_ ?_ (hnumber.trans hnumber'.symm)
    · rw [List.length_reverse, List.length_reverse]
      omega
    · simpa using hvs
    · simpa using hws
  rw [htext', List.reverse_inj.mp hdigits]

/-- The number of symbols has six bits for each of them. -/
theorem number_lt {symbols : List UInt8} (h : ∀ b ∈ symbols, b ∈ alphabet) :
    number 64 (symbols.map alphabet.idxOf) < 64 ^ symbols.length := by
  obtain ⟨vs, hvs, rfl⟩ := exists_map_symbol h
  rw [map_idxOf_symbol hvs, List.length_map, ← List.length_reverse]
  exact Nat.ofDigits_lt_base_pow_length (by decide) (by simpa using hvs)

/-- Whether the padding leaves only zeros over is seen at the last symbol. -/
theorem dvd_number_iff {padding : Nat} (hle : padding ≤ 2) (symbols : List UInt8) :
    4 ^ padding ∣ number 64 (symbols.map alphabet.idxOf) ↔
      ∀ b ∈ symbols.getLast?, 4 ^ padding ∣ alphabet.idxOf b := by
  rcases symbols.eq_nil_or_concat' with rfl | ⟨front, last, rfl⟩
  · simp [number]
  · have hgroup : 4 ^ padding ∣ 64 := Nat.pow_dvd_pow 4 (n := 3) (by omega)
    rw [List.map_append, number_append]
    have hlast : number 64 ([last].map alphabet.idxOf) = alphabet.idxOf last := Nat.ofDigits_singleton ..
    rw [hlast, Nat.dvd_add_right (Nat.dvd_mul_left_of_dvd (by simpa using hgroup) _)]
    simp

/-- Texts stand for bytes exactly if they are canonical. -/
theorem canonical_iff {text : List UInt8} : Canonical text ↔ ∃ bytes, StandsFor text bytes := by
  refine ⟨fun h => ?_, fun h => ?_⟩
  · obtain ⟨hfour, symbols, padding, ⟨rfl, hle, hmem⟩, hlast⟩ := h
    rw [List.length_append, List.length_replicate] at hfour
    have hlength : 6 * symbols.length = 8 * ((3 * symbols.length - padding) / 4) + 2 * padding := by
      omega
    obtain ⟨n, hn⟩ := (dvd_number_iff hle symbols).mpr hlast
    have hlt : 4 ^ padding * n < 4 ^ padding * 256 ^ ((3 * symbols.length - padding) / 4) := by
      rw [← hn, Nat.mul_comm, ← pow_eq hlength]
      exact number_lt hmem
    obtain ⟨bytes, hbytes, hnumber⟩ := exists_bytes (Nat.lt_of_mul_lt_mul_left hlt)
    refine ⟨bytes, symbols, padding, ⟨rfl, hle, hmem⟩, by rw [hbytes, hlength], ?_⟩
    rw [hn, hnumber, Nat.mul_comm]
  · obtain ⟨bytes, symbols, padding, ⟨rfl, hle, hmem⟩, hlength, hnumber⟩ := h
    refine ⟨?_, symbols, padding, ⟨rfl, hle, hmem⟩, (dvd_number_iff hle symbols).mp ?_⟩
    · rw [List.length_append, List.length_replicate]
      omega
    · rw [hnumber]
      exact Nat.dvd_mul_left _ _

end TapeMachine.Base64
