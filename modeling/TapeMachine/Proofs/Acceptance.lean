import TapeMachine.Proofs.Base64Text
import TapeMachine.Proofs.Container

/-!
# Which data are stored programs

Three grammars decide one after the other what becomes of stored data: the text between the blanks
is base64 or not, the bytes it stands for are an array of bytes or not, and these bytes start with
the header or not. Each grammar is stated without the reader that decides it.
-/

namespace TapeMachine

/-- Reading base64 gives the bytes that a text stands for. -/
theorem Base64.decode_eq_ok_iff_standsFor {text bytes : List UInt8} :
    decode text = .ok bytes ↔ StandsFor text bytes :=
  decode_eq_ok_iff.trans standsFor_iff.symm

/-- An array of bytes is a program if it starts with the header. -/
theorem deserialize_of_readBytes {data array bytes : List UInt8}
    (hdecode : Base64.decode (Text.trimBlankBytes data) = .ok array)
    (hread : Json.readBytes array = .ok bytes) :
    deserialize data =
      if Program.header.toList <+: bytes then .ok ⟨bytes.toArray⟩ else .error .missingHeader := by
  rw [deserialize, hdecode]
  dsimp only
  rw [hread]
  simp only [Program.hasHeader_iff]

/-- What becomes of data is decided by three grammars one after the other: base64 for the one text
between the blanks, arrays of bytes for what it stands for, and the header for these bytes. -/
theorem deserialize_by_grammar (data : List UInt8) :
    ∃ text, (∀ other, Text.Trimmed data other ↔ other = text) ∧
      ((∃ e, deserialize data = .error (.base64 e)) ↔ ¬ Base64.Canonical text) ∧
      (Base64.Canonical text ↔ ∃! array, Base64.StandsFor text array) ∧
      ((∃ e, deserialize data = .error (.json e)) ↔
        ∃ array, Base64.StandsFor text array ∧ ¬ ∃ bytes, Json.ArrayText bytes array) ∧
      (deserialize data = .error .missingHeader ↔
        ∃ array bytes, Base64.StandsFor text array ∧ Json.ArrayText bytes array ∧
          ¬ Program.header.toList <+: bytes) ∧
      ∀ p, deserialize data = .ok p ↔
        ∃ array, Base64.StandsFor text array ∧ Json.ArrayText p.bytes.toList array ∧
          Program.header.toList <+: p.bytes.toList := by
  have htrimmed (other : List UInt8) :
      Text.Trimmed data other ↔ other = Text.trimBlankBytes data :=
    ⟨Text.Trimmed.eq_trimBlankBytes, fun h => h ▸ Text.trimmed_trimBlankBytes data⟩
  refine ⟨Text.trimBlankBytes data, htrimmed, ?_⟩
  simp only [Base64.canonical_iff, ← Base64.decode_eq_ok_iff_standsFor, ← Json.readBytes_eq_ok_iff]
  cases hdecode : Base64.decode (Text.trimBlankBytes data) with
  | error e => simp [deserialize, hdecode]
  | ok array =>
    cases hread : Json.readBytes array with
    | error e => simp [deserialize, hdecode, hread]
    | ok bytes =>
      rw [deserialize_of_readBytes hdecode hread]
      by_cases h : Program.header.toList <+: bytes
      · rw [if_pos h]
        refine ⟨by simp, by simp, by simp [hread], by simp [hread, h], fun p => ⟨fun hp => ?_, ?_⟩⟩
        · obtain rfl := Except.ok.inj hp
          exact ⟨array, rfl, hread, h⟩
        · rintro ⟨array', ⟨⟩, hread', -⟩
          rw [Except.ok.inj (hread.symm.trans hread')]
      · rw [if_neg h]
        refine ⟨by simp, by simp, by simp [hread], by simp [hread, h], fun p => ⟨fun hp => ?_, ?_⟩⟩
        · contradiction
        · rintro ⟨array', ⟨⟩, hread', hp⟩
          rw [← Except.ok.inj (hread.symm.trans hread')] at hp
          contradiction

end TapeMachine
