import TapeMachine.Proofs.Container

/-!
# Stored programs that were cut off

A stored program says nowhere how long it is, but wherever it is cut off this shows. A cut inside a
group leaves a text whose length is no multiple of four, and a text that is missing padding or symbols
is not base64. A cut between groups leaves the base64 of an array that was itself cut off, and since
its bracket is the last byte of an array and stands nowhere else in it, that array has no end.
-/

namespace TapeMachine

namespace Base64

/-- What is written has whole groups only. -/
theorem length_encode_mod (bytes : List UInt8) : (encode bytes).length % 4 = 0 := by
  induction bytes using encode.induct with
  | case1 => rfl
  | case2 a => simp [encode]
  | case3 a b => simp [encode]
  | case4 a b c rest ih =>
    simp only [encode, List.length_cons]
    omega

/-- So many groups are what so many times three bytes are written as. -/
theorem take_encode (groups : Nat) (bytes : List UInt8) :
    (encode bytes).take (4 * groups) = encode (bytes.take (3 * groups)) := by
  induction groups generalizing bytes with
  | zero => rfl
  | succ groups ih =>
    rw [Nat.mul_succ, Nat.mul_succ]
    match bytes with
    | [] => simp [encode]
    | [a] => simp [encode]
    | [a, b] => simp [encode]
    | a :: b :: c :: rest => simp [encode, ih]

/-- A text that ends inside a group is not base64. -/
theorem decode_of_length_mod {text : List UInt8} (h : text.length % 4 ≠ 0) :
    ∃ e, decode text = .error e := by
  cases hdecode : decode text with
  | error e => exact ⟨e, rfl⟩
  | ok bytes =>
    rw [← decode_eq_ok_iff.mp hdecode] at h
    exact absurd (length_encode_mod bytes) h

/-- The groups at the start of a text stand for bytes at the start of what it stands for. -/
theorem decode_of_cut {bytes cut : List UInt8} (hcut : cut <+: encode bytes)
    (hgroups : cut.length % 4 = 0) : ∃ front, front <+: bytes ∧ decode cut = .ok front := by
  refine ⟨bytes.take (3 * (cut.length / 4)), List.take_prefix _ _, decode_eq_ok_iff.mpr ?_⟩
  rw [← take_encode, Nat.mul_div_cancel' (Nat.dvd_of_mod_eq_zero hgroups)]
  exact (List.prefix_iff_eq_take.mp hcut).symm

end Base64

namespace Json

/-- All bytes of the tokens stand in the text. -/
theorem Spaced.mem {tokens : List (List UInt8)} {text token : List UInt8} {b : UInt8}
    (h : Spaced tokens text) (htoken : token ∈ tokens) (hb : b ∈ token) : b ∈ text := by
  induction h with
  | nil => contradiction
  | cons hblanks _ ih =>
    rcases List.mem_cons.mp htoken with rfl | htoken
    · exact List.mem_append_right _ (List.mem_append_left _ hb)
    · exact List.mem_append_right _ (List.mem_append_right _ (ih htoken))

/-- An array has its closing bracket. -/
theorem ArrayText.bracket_mem {bytes text : List UInt8} (h : ArrayText bytes text) : 93 ∈ text := by
  obtain ⟨numerals, -, hspaced⟩ := h
  have hlast : [93] ∈ arrayTokens numerals := by simp [arrayTokens]
  exact hspaced.mem hlast List.mem_cons_self

/-- There is no bracket in a number. -/
theorem bracket_not_mem_decimal (b : UInt8) : 93 ∉ decimal b := by
  intro h
  exact absurd ((numeral_decimal b).digits 93 h) (by decide)

/-- The closing bracket ends what is written behind the first element and stands nowhere else in it. -/
theorem exists_writeMore_eq (bs : List UInt8) : ∃ front, writeMore bs = front ++ [93] ∧ 93 ∉ front := by
  induction bs with
  | nil => exact ⟨[], rfl, List.not_mem_nil⟩
  | cons b bs ih =>
    obtain ⟨front, hfront, hmem⟩ := ih
    refine ⟨44 :: (decimal b ++ front), by simp [writeMore, hfront], ?_⟩
    simp [hmem, bracket_not_mem_decimal]

/-- The closing bracket ends what is written and stands nowhere else in it. -/
theorem exists_writeBytes_eq (bs : List UInt8) : ∃ front, writeBytes bs = front ++ [93] ∧ 93 ∉ front := by
  cases bs with
  | nil => exact ⟨[91], rfl, by decide⟩
  | cons b bs =>
    obtain ⟨front, hfront, hmem⟩ := exists_writeMore_eq bs
    refine ⟨91 :: (decimal b ++ front), by simp [writeBytes, hfront], ?_⟩
    simp [hmem, bracket_not_mem_decimal]

/-- An array that was cut off is not read. -/
theorem readBytes_of_cut {bs cut : List UInt8} (hcut : cut <+: writeBytes bs)
    (hshort : cut ≠ writeBytes bs) : ∃ e, readBytes cut = .error e := by
  obtain ⟨front, hfront, hmem⟩ := exists_writeBytes_eq bs
  cases hread : readBytes cut with
  | error e => exact ⟨e, rfl⟩
  | ok bytes =>
    have hbracket := (readBytes_eq_ok_iff.mp hread).bracket_mem
    rw [hfront] at hcut hshort
    rcases List.prefix_concat_iff.mp hcut with heq | hwithin
    · contradiction
    · exact absurd (hwithin.mem hbracket) hmem

end Json

/-- No blanks are removed from a stored program, wherever it is cut off. -/
theorem trimBlankBytes_of_cut {p : Program} {cut : List UInt8} (hcut : cut <+: serialize p) :
    Text.trimBlankBytes cut = cut := by
  have hblank : ∀ b ∈ cut, Text.isBlankByte b = false :=
    fun b hb => Base64.not_blank_of_mem_encode (hcut.mem hb)
  simpa using Text.trimBlankBytes_append (List.forall_mem_nil _) hblank (List.forall_mem_nil _)

/-- A stored program that was cut off is refused: as a text that is not base64 if the cut is inside a
group, and else, also with nothing left, as a text that is not an array. -/
theorem deserialize_cut_refused (p : Program) {cut : List UInt8} (hcut : cut <+: serialize p)
    (hshort : cut ≠ serialize p) :
    (cut.length % 4 ≠ 0 ∧ ∃ e, deserialize cut = .error (.base64 e)) ∨
      (cut.length % 4 = 0 ∧ ∃ e, deserialize cut = .error (.json e)) := by
  have htrim := trimBlankBytes_of_cut hcut
  by_cases hgroups : cut.length % 4 = 0
  · obtain ⟨front, hfront, hdecode⟩ := Base64.decode_of_cut hcut hgroups
    -- Less text stands for less of the array.
    have hless : front ≠ Json.writeBytes p.bytes.toList := by
      rintro rfl
      exact hshort (Base64.decode_eq_ok_iff.mp hdecode).symm
    obtain ⟨e, hread⟩ := Json.readBytes_of_cut hfront hless
    exact .inr ⟨hgroups, e, by rw [deserialize, htrim, hdecode]; dsimp only; rw [hread]⟩
  · obtain ⟨e, hdecode⟩ := Base64.decode_of_length_mod hgroups
    exact .inl ⟨hgroups, e, by rw [deserialize, htrim, hdecode]⟩

/-- The text `WzEwXQ==` of a program without one of its two bytes of padding, without its last group, and
without anything. -/
theorem deserialize_cut_refused_padding :
    serialize ⟨#[10]⟩ = [87, 122, 69, 119, 88, 81, 61, 61] ∧
      (∃ e, deserialize [87, 122, 69, 119, 88, 81, 61] = .error (.base64 e)) ∧
        (∃ e, deserialize [87, 122, 69, 119] = .error (.json e)) ∧
          ∃ e, deserialize [] = .error (.json e) := by
  have htext : serialize ⟨#[10]⟩ = [87, 122, 69, 119, 88, 81, 61, 61] := by decide
  have hrefused (cut : List UInt8) (hcut : cut <+: [87, 122, 69, 119, 88, 81, 61, 61])
      (hshort : cut ≠ [87, 122, 69, 119, 88, 81, 61, 61]) :=
    deserialize_cut_refused ⟨#[10]⟩ (htext ▸ hcut) (htext ▸ hshort)
  refine ⟨htext, ?_, ?_, ?_⟩
  · simpa using hrefused [87, 122, 69, 119, 88, 81, 61] (by decide) (by decide)
  · simpa using hrefused [87, 122, 69, 119] (by decide) (by decide)
  · simpa using hrefused [] (by decide) (by decide)

end TapeMachine
