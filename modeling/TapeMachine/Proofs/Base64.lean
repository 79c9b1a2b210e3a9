import Mathlib.Data.List.Basic
import TapeMachine.Container.Base64

/-!
# Base64 reads exactly what it writes

A text is read in whole groups and one last group that may be padded. Taking a whole group off the
front of a text takes three bytes off what it stands for, so reading and writing can be compared
group by group, and only the last group needs a look at its padding.
-/

namespace TapeMachine.Base64

/-- The symbol of a number stands for the number. -/
theorem value?_symbol : ∀ n < 64, value? (symbol n) = some n := by decide

/-- A byte that stands for a number is the symbol of this number. -/
theorem symbol_of_value? {b : UInt8} {n : Nat} (h : value? b = some n) : n < 64 ∧ symbol n = b := by
  unfold value? at h
  split at h
  · next hupper =>
    obtain rfl := Option.some.inj h
    have hlow : 65 ≤ b.toNat := UInt8.le_iff_toNat_le.mp hupper.1
    have hhigh : b.toNat ≤ 90 := UInt8.le_iff_toNat_le.mp hupper.2
    refine ⟨by omega, ?_⟩
    rw [symbol, if_pos (by omega), Nat.sub_add_cancel hlow, UInt8.ofNat_toNat]
  split at h
  · next hlower =>
    obtain rfl := Option.some.inj h
    have hlow : 97 ≤ b.toNat := UInt8.le_iff_toNat_le.mp hlower.1
    have hhigh : b.toNat ≤ 122 := UInt8.le_iff_toNat_le.mp hlower.2
    refine ⟨by omega, ?_⟩
    rw [symbol, if_neg (by omega), if_pos (by omega), Nat.sub_add_cancel (by omega), UInt8.ofNat_toNat]
  split at h
  · next hdigit =>
    obtain rfl := Option.some.inj h
    have hlow : 48 ≤ b.toNat := UInt8.le_iff_toNat_le.mp hdigit.1
    have hhigh : b.toNat ≤ 57 := UInt8.le_iff_toNat_le.mp hdigit.2
    refine ⟨by omega, ?_⟩
    rw [symbol, if_neg (by omega), if_neg (by omega), if_pos (by omega), Nat.add_sub_cancel,
      UInt8.ofNat_toNat]
  split at h
  · next hplus =>
    obtain rfl := Option.some.inj h
    exact ⟨by decide, hplus.symm⟩
  split at h
  · next hslash =>
    obtain rfl := Option.some.inj h
    exact ⟨by decide, hslash.symm⟩
  · contradiction

/-- The padding stands for no number. -/
theorem ne_pad_of_value? {b : UInt8} {n : Nat} (h : value? b = some n) : b ≠ pad := by
  intro hpad
  rw [hpad] at h
  contradiction

/-- Symbols are read as numbers exactly when they are the symbols of these numbers. -/
theorem values_eq_ok_iff {offset : Nat} {bs : List UInt8} {vs : List Nat} :
    values offset bs = .ok vs ↔ bs = vs.map symbol ∧ ∀ v ∈ vs, v < 64 := by
  refine ⟨fun h => ?_, fun h => ?_⟩
  · induction bs generalizing offset vs with
    | nil =>
      obtain rfl := Except.ok.inj h
      simp
    | cons b bs ih =>
      simp only [values] at h
      split at h
      · contradiction
      · next v hv =>
        split at h
        · contradiction
        · next ws hws =>
          obtain rfl := Except.ok.inj h
          obtain ⟨hbs, hlt⟩ := ih hws
          obtain ⟨hv, hb⟩ := symbol_of_value? hv
          exact ⟨by rw [List.map_cons, hb, ← hbs], List.forall_mem_cons.mpr ⟨hv, hlt⟩⟩
  · obtain ⟨rfl, hlt⟩ := h
    induction vs generalizing offset with
    | nil => rfl
    | cons v vs ih =>
      obtain ⟨hv, hvs⟩ := List.forall_mem_cons.mp hlt
      simp only [List.map_cons, values, value?_symbol v hv, ih hvs]

/-- The last group splits into symbols and the padding behind them, which starts late enough. -/
theorem splitPadding_eq_ok_iff {offset position padding : Nat} {group symbols : List UInt8} :
    splitPadding offset position group = .ok (symbols, padding) ↔
      group = symbols ++ List.replicate padding pad ∧ (padding = 0 ∨ 2 ≤ position + symbols.length) ∧
        ∃ vs : List Nat, symbols = vs.map symbol ∧ ∀ v ∈ vs, v < 64 := by
  refine ⟨fun h => ?_, fun h => ?_⟩
  · induction group generalizing position symbols with
    | nil =>
      obtain ⟨rfl, rfl⟩ : [] = symbols ∧ 0 = padding := by simpa [splitPadding] using h
      exact ⟨rfl, .inl rfl, [], rfl, by simp⟩
    | cons b bs ih =>
      simp only [splitPadding] at h
      split at h
      · next hb =>
        split at h
        · contradiction
        · next hposition =>
          split at h
          · next hall =>
            obtain ⟨rfl, rfl⟩ : [] = symbols ∧ bs.length + 1 = padding := by simpa using h
            have hbs : bs = List.replicate bs.length pad :=
              List.eq_replicate_of_mem fun x hx => by simpa using List.all_eq_true.mp hall x hx
            refine ⟨?_, .inr (by simp; omega), [], rfl, by simp⟩
            rw [hb, List.nil_append, List.replicate_succ, ← hbs]
          · contradiction
      · split at h
        · contradiction
        · next v hv =>
          split at h
          · contradiction
          · next symbols' padding' hsplit =>
            obtain ⟨rfl, rfl⟩ : b :: symbols' = symbols ∧ padding' = padding := by simpa using h
            obtain ⟨rfl, hlate, vs, rfl, hvs⟩ := ih hsplit
            obtain ⟨hv, hb⟩ := symbol_of_value? hv
            refine ⟨rfl, ?_, v :: vs, by rw [List.map_cons, hb], List.forall_mem_cons.mpr ⟨hv, hvs⟩⟩
            rw [List.length_cons]
            omega
  · obtain ⟨rfl, hlate, vs, rfl, hvs⟩ := h
    induction vs generalizing position with
    | nil =>
      cases padding with
      | zero => rfl
      | succ n =>
        have hposition : ¬ position < 2 := by
          simp only [List.map_nil, List.length_nil] at hlate
          omega
        simp [splitPadding, List.replicate_succ, hposition]
    | cons v vs ih =>
      obtain ⟨hv, hvs⟩ := List.forall_mem_cons.mp hvs
      have hpad := ne_pad_of_value? (value?_symbol v hv)
      have hlater : padding = 0 ∨ 2 ≤ position + 1 + (vs.map symbol).length := by
        simp only [List.length_map, List.length_cons] at hlate ⊢
        omega
      have hrest := ih hvs hlater
      simp only [List.map_cons, List.cons_append, splitPadding, if_neg hpad, value?_symbol v hv, hrest]

/-- The numbers of symbols are found again. -/
theorem filterMap_value?_symbol {vs : List Nat} (hvs : ∀ v ∈ vs, v < 64) :
    (vs.map symbol).filterMap value? = vs := by
  rw [List.filterMap_map]
  exact (List.filterMap_congr fun v hv => value?_symbol v (hvs v hv)).trans List.filterMap_some

/-- The first two numbers of a group make up the first byte. -/
theorem toNat_first {w x : Nat} (hw : w < 64) (hx : x < 64) :
    (UInt8.ofNat (w * 4 + x / 16)).toNat = w * 4 + x / 16 :=
  UInt8.toNat_ofNat_of_lt' (by simp only [UInt8.size]; omega)

/-- The second and the third number of a group make up the second byte. -/
theorem toNat_second {x y : Nat} (hy : y < 64) :
    (UInt8.ofNat (x % 16 * 16 + y / 4)).toNat = x % 16 * 16 + y / 4 :=
  UInt8.toNat_ofNat_of_lt' (by simp only [UInt8.size]; omega)

/-- The last two numbers of a group make up the third byte. -/
theorem toNat_third {y z : Nat} (hz : z < 64) :
    (UInt8.ofNat (y % 4 * 64 + z)).toNat = y % 4 * 64 + z :=
  UInt8.toNat_ofNat_of_lt' (by simp only [UInt8.size]; omega)

/-- Three bytes are the symbols of the group that joins to them. -/
theorem encode_group {w x y z : Nat} (hw : w < 64) (hx : x < 64) (hy : y < 64) (hz : z < 64)
    (rest : List UInt8) :
    encode (UInt8.ofNat (w * 4 + x / 16) :: UInt8.ofNat (x % 16 * 16 + y / 4) ::
      UInt8.ofNat (y % 4 * 64 + z) :: rest) =
        symbol w :: symbol x :: symbol y :: symbol z :: encode rest := by
  rw [encode, toNat_first hw hx, toNat_second hy, toNat_third hz,
    show (w * 4 + x / 16) / 4 = w by omega,
    show (w * 4 + x / 16) % 4 * 16 + (x % 16 * 16 + y / 4) / 16 = x by omega,
    show (x % 16 * 16 + y / 4) % 16 * 4 + (y % 4 * 64 + z) / 64 = y by omega,
    show (y % 4 * 64 + z) % 64 = z by omega]

/-- Every three bytes are what a group of four numbers joins to. -/
theorem exists_group (a b c : UInt8) :
    ∃ w x y z, (w < 64 ∧ x < 64 ∧ y < 64 ∧ z < 64) ∧ a = UInt8.ofNat (w * 4 + x / 16) ∧
      b = UInt8.ofNat (x % 16 * 16 + y / 4) ∧ c = UInt8.ofNat (y % 4 * 64 + z) := by
  have ha := a.toNat_lt
  have hb := b.toNat_lt
  have hc := c.toNat_lt
  refine ⟨a.toNat / 4, a.toNat % 4 * 16 + b.toNat / 16, b.toNat % 16 * 4 + c.toNat / 64, c.toNat % 64,
    by omega, ?_, ?_, ?_⟩
  · rw [show a.toNat / 4 * 4 + (a.toNat % 4 * 16 + b.toNat / 16) / 16 = a.toNat by omega,
      UInt8.ofNat_toNat]
  · rw [show (a.toNat % 4 * 16 + b.toNat / 16) % 16 * 16 + (b.toNat % 16 * 4 + c.toNat / 64) / 4 =
      b.toNat by omega, UInt8.ofNat_toNat]
  · rw [show (b.toNat % 16 * 4 + c.toNat / 64) % 4 * 64 + c.toNat % 64 = c.toNat by omega,
      UInt8.ofNat_toNat]

/-- Whole groups are written with their symbols, in front of what follows them. -/
theorem encode_join_append {vs : List Nat} (hvs : ∀ v ∈ vs, v < 64) (hlength : vs.length % 4 = 0)
    (rest : List UInt8) : encode (join vs ++ rest) = vs.map symbol ++ encode rest := by
  induction vs using join.induct with
  | case1 w x y z vs ih =>
    simp only [List.forall_mem_cons] at hvs
    obtain ⟨hw, hx, hy, hz, hvs⟩ := hvs
    have htail := ih hvs (by simp only [List.length_cons] at hlength; omega)
    simp only [join, List.cons_append, encode_group hw hx hy hz, htail, List.map_cons]
  | case2 vs hshort =>
    match vs, hshort, hlength with
    | [], _, _ => rfl
    | w :: x :: y :: z :: rest, hshort, _ => exact absurd rfl (hshort w x y z rest)

/-- Bytes are whole groups and a last group of one to three bytes. -/
theorem exists_join_append {bytes : List UInt8} (hbytes : bytes ≠ []) :
    ∃ vs last, bytes = join vs ++ last ∧ (∀ v ∈ vs, v < 64) ∧ vs.length % 4 = 0 ∧ last ≠ [] ∧
      last.length ≤ 3 := by
  induction bytes using encode.induct with
  | case1 => contradiction
  | case2 a => exact ⟨[], [a], rfl, by simp, rfl, by simp, by simp⟩
  | case3 a b => exact ⟨[], [a, b], rfl, by simp, rfl, by simp, by simp⟩
  | case4 a b c rest ih =>
    cases rest with
    | nil => exact ⟨[], [a, b, c], rfl, by simp, rfl, by simp, by simp⟩
    | cons d rest =>
      obtain ⟨vs, last, heq, hvs, hlength, hne, hle⟩ := ih (by simp)
      obtain ⟨w, x, y, z, ⟨hw, hx, hy, hz⟩, rfl, rfl, rfl⟩ := exists_group a b c
      refine ⟨w :: x :: y :: z :: vs, last, by rw [heq]; rfl, ?_, ?_, hne, hle⟩
      · simp only [List.forall_mem_cons]
        exact ⟨hw, hx, hy, hz, hvs⟩
      · simp only [List.length_cons]
        omega

/-- Numbers that join to a last group are its symbols, with padding up to four. -/
theorem encode_of_joinLast? {vs : List Nat} {bytes : List UInt8} (hvs : ∀ v ∈ vs, v < 64)
    (h : joinLast? vs = some bytes) :
    bytes ≠ [] ∧ bytes.length ≤ 3 ∧ 2 ≤ vs.length ∧ vs.length ≤ 4 ∧
      encode bytes = vs.map symbol ++ List.replicate (4 - vs.length) pad := by
  match vs, h with
  | [w, x], h =>
    simp only [List.forall_mem_cons] at hvs
    obtain ⟨hw, hx, -⟩ := hvs
    obtain ⟨hzero, rfl⟩ : x % 16 = 0 ∧ [UInt8.ofNat (w * 4 + x / 16)] = bytes := by
      simpa [joinLast?] using h
    refine ⟨by simp, by simp, by simp, by simp, ?_⟩
    rw [encode, toNat_first hw hx, show (w * 4 + x / 16) / 4 = w by omega,
      show (w * 4 + x / 16) % 4 * 16 = x by omega]
    rfl
  | [w, x, y], h =>
    simp only [List.forall_mem_cons] at hvs
    obtain ⟨hw, hx, hy, -⟩ := hvs
    obtain ⟨hzero, rfl⟩ : y % 4 = 0 ∧
        [UInt8.ofNat (w * 4 + x / 16), UInt8.ofNat (x % 16 * 16 + y / 4)] = bytes := by
      simpa [joinLast?] using h
    refine ⟨by simp, by simp, by simp, by simp, ?_⟩
    rw [encode, toNat_first hw hx, toNat_second hy, show (w * 4 + x / 16) / 4 = w by omega,
      show (w * 4 + x / 16) % 4 * 16 + (x % 16 * 16 + y / 4) / 16 = x by omega,
      show (x % 16 * 16 + y / 4) % 16 * 4 = y by omega]
    rfl
  | [w, x, y, z], h =>
    simp only [List.forall_mem_cons] at hvs
    obtain ⟨hw, hx, hy, hz, -⟩ := hvs
    obtain rfl := Option.some.inj h
    exact ⟨by simp, by simp, by simp, by simp, encode_group hw hx hy hz []⟩

/-- One to three bytes are what some last group joins to. -/
theorem exists_joinLast? {bytes : List UInt8} (hbytes : bytes ≠ []) (hlength : bytes.length ≤ 3) :
    ∃ vs : List Nat, (∀ v ∈ vs, v < 64) ∧ joinLast? vs = some bytes := by
  match bytes, hlength with
  | [a], _ =>
    -- A missing byte counts as zero, which leaves the bits behind the last byte zero.
    obtain ⟨w, x, y, z, ⟨hw, hx, hy, hz⟩, rfl, hb, hc⟩ := exists_group a 0 0
    have hzero : 0 = x % 16 * 16 + y / 4 := by
      rw [← toNat_second hy, ← hb]
      rfl
    exact ⟨[w, x], by simp [hw, hx], by rw [joinLast?, if_pos (by omega)]⟩
  | [a, b], _ =>
    obtain ⟨w, x, y, z, ⟨hw, hx, hy, hz⟩, rfl, rfl, hc⟩ := exists_group a b 0
    have hzero : 0 = y % 4 * 64 + z := by
      rw [← toNat_third hz, ← hc]
      rfl
    exact ⟨[w, x, y], by simp [hw, hx, hy], by rw [joinLast?, if_pos (by omega)]⟩
  | [a, b, c], _ =>
    obtain ⟨w, x, y, z, ⟨hw, hx, hy, hz⟩, rfl, rfl, rfl⟩ := exists_group a b c
    exact ⟨[w, x, y, z], by simp [hw, hx, hy, hz], rfl⟩

/-- The last group is read exactly when it is one to three bytes as they are written. -/
theorem decodeLast_eq_ok_iff {offset : Nat} {group bytes : List UInt8} :
    decodeLast offset group = .ok bytes ↔ encode bytes = group ∧ bytes ≠ [] ∧ bytes.length ≤ 3 := by
  refine ⟨fun h => ?_, fun h => ?_⟩
  · unfold decodeLast at h
    split at h
    · contradiction
    · next symbols padding hsplit =>
      obtain ⟨rfl, -, vs, rfl, hvs⟩ := splitPadding_eq_ok_iff.mp hsplit
      split at h
      · contradiction
      split at h
      · contradiction
      · next hfour =>
        split at h
        · next last hlast =>
          obtain rfl := Except.ok.inj h
          rw [filterMap_value?_symbol hvs] at hlast
          obtain ⟨hne, hle, -, -, hencode⟩ := encode_of_joinLast? hvs hlast
          have hpadding : padding = 4 - vs.length := by
            rw [List.length_map] at hfour
            omega
          exact ⟨by rw [hencode, hpadding], hne, hle⟩
        · contradiction
  · obtain ⟨rfl, hne, hle⟩ := h
    obtain ⟨vs, hvs, hlast⟩ := exists_joinLast? hne hle
    obtain ⟨-, -, htwo, hfour, hencode⟩ := encode_of_joinLast? hvs hlast
    have hsplit : splitPadding offset 0 (encode bytes) = .ok (vs.map symbol, 4 - vs.length) :=
      splitPadding_eq_ok_iff.mpr ⟨hencode, .inr (by simpa using htwo), vs, rfl, hvs⟩
    have hshort : ¬ (vs.map symbol).length < 2 := by
      rw [List.length_map]
      omega
    have hfull : ¬ (vs.map symbol).length + (4 - vs.length) ≠ 4 := by
      rw [List.length_map]
      omega
    simp only [decodeLast, hsplit, if_neg hshort, if_neg hfull, filterMap_value?_symbol hvs, hlast]

/-- The last group of one to three bytes has four symbols. -/
theorem length_encode_last {bytes : List UInt8} (hne : bytes ≠ []) (hle : bytes.length ≤ 3) :
    (encode bytes).length = 4 := by
  match bytes, hle with
  | [a], _ => rfl
  | [a, b], _ => rfl
  | [a, b, c], _ => rfl

/-- Reading accepts what writing produces and nothing else. -/
theorem decode_eq_ok_iff {text bytes : List UInt8} : decode text = .ok bytes ↔ encode bytes = text := by
  refine ⟨fun h => ?_, fun h => ?_⟩
  · unfold decode at h
    split at h
    · next hnil =>
      obtain rfl := Except.ok.inj h
      exact (List.getLast?_eq_none_iff.mp hnil).symm
    · split at h
      · contradiction
      dsimp only at h
      split at h
      · contradiction
      · next vs hvalues =>
        split at h
        · contradiction
        · next last hlast =>
          obtain rfl := Except.ok.inj h
          obtain ⟨hfront, hvs⟩ := values_eq_ok_iff.mp hvalues
          obtain ⟨hback, hne, hle⟩ := decodeLast_eq_ok_iff.mp hlast
          have hfour := congrArg List.length hback
          have hcount := congrArg List.length hfront
          rw [length_encode_last hne hle, List.length_drop] at hfour
          rw [List.length_take, List.length_map] at hcount
          -- The last group has four symbols only if the text has no incomplete group.
          have hwhole : vs.length % 4 = 0 := by
            unfold lastLength at hfour hcount
            split_ifs at hfour hcount <;> omega
          rw [encode_join_append hvs hwhole, ← hfront, hback, List.take_append_drop]
  · subst h
    by_cases hbytes : bytes = []
    · subst hbytes
      rfl
    obtain ⟨vs, last, rfl, hvs, hwhole, hne, hle⟩ := exists_join_append hbytes
    rw [encode_join_append hvs hwhole]
    have hfour := length_encode_last hne hle
    have hlength : (vs.map symbol ++ encode last).length = vs.length + 4 := by
      rw [List.length_append, List.length_map, hfour]
    have hsplit : (vs.map symbol ++ encode last).length -
        lastLength (vs.map symbol ++ encode last).length = (vs.map symbol).length := by
      rw [hlength, lastLength, if_pos (by omega), List.length_map, Nat.add_sub_cancel]
    have hnonempty : vs.map symbol ++ encode last ≠ [] := by
      intro hnil
      rw [hnil] at hlength
      simp at hlength
    have hvalues : values 0 (vs.map symbol) = .ok vs := values_eq_ok_iff.mpr ⟨rfl, hvs⟩
    have hlast : decodeLast (vs.map symbol).length (encode last) = .ok last :=
      decodeLast_eq_ok_iff.mpr ⟨rfl, hne, hle⟩
    unfold decode
    rw [List.getLast?_eq_some_getLast hnonempty]
    dsimp only
    rw [if_neg (by omega), hsplit, List.take_left, List.drop_left, hvalues]
    dsimp only
    rw [hlast]

/-- What is written is symbols with padding behind them. -/
theorem exists_encode_eq (bytes : List UInt8) :
    ∃ (vs : List Nat) (padding : Nat), (∀ v ∈ vs, v < 64) ∧
      encode bytes = vs.map symbol ++ List.replicate padding pad := by
  by_cases hbytes : bytes = []
  · exact ⟨[], 0, by simp, by rw [hbytes]; rfl⟩
  obtain ⟨vs, last, rfl, hvs, hwhole, hne, hle⟩ := exists_join_append hbytes
  obtain ⟨ws, hws, hlast⟩ := exists_joinLast? hne hle
  obtain ⟨-, -, -, -, hencode⟩ := encode_of_joinLast? hws hlast
  refine ⟨vs ++ ws, 4 - ws.length, List.forall_mem_append.mpr ⟨hvs, hws⟩, ?_⟩
  rw [encode_join_append hvs hwhole, hencode, List.map_append, List.append_assoc]

end TapeMachine.Base64
