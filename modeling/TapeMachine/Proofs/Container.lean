import Mathlib.Data.List.TakeWhile
import TapeMachine.Container.Format
import TapeMachine.Proofs.Base64
import TapeMachine.Proofs.JsonBytes

/-!
# Stored programs are read back

The symbols of base64 are not blank, so blanks around a stored program can be told from it. What is
left reads back to the bytes that were stored, whatever they are, and only then does the header
decide.
-/

namespace TapeMachine

/-- The blank bytes are space, tab, newline, form feed and carriage return. -/
theorem Text.isBlankByte_iff {b : UInt8} : isBlankByte b = true ↔ b ∈ [32, 9, 10, 12, 13] := by
  simp [isBlankByte, or_assoc]

/-- The text that is left of data without the blanks at its ends. -/
structure Text.Trimmed (data text : List UInt8) : Prop where
  cut : ∃ before after, data = before ++ text ++ after ∧ ∀ b ∈ before ++ after, b ∈ [32, 9, 10, 12, 13]
  first : ∀ b ∈ text.head?, b ∉ [32, 9, 10, 12, 13]
  last : ∀ b ∈ text.getLast?, b ∉ [32, 9, 10, 12, 13]

/-- Blanks are removed from both ends, and nothing else is. -/
theorem Text.trimmed_trimBlankBytes (data : List UInt8) : Trimmed data (trimBlankBytes data) := by
  have hhead (bs : List UInt8) {b : UInt8} (hb : b ∈ (bs.dropWhile isBlankByte).head?) :
      b ∉ [32, 9, 10, 12, 13] := by
    have hnot := bs.head?_dropWhile_not isBlankByte
    rw [Option.mem_def.mp hb] at hnot
    rw [← isBlankByte_iff]
    simpa using hnot
  obtain ⟨after, hafter⟩ : ∃ after, data.dropWhile isBlankByte = trimBlankBytes data ++ after ∧
      ∀ b ∈ after, isBlankByte b = true := by
    refine ⟨((data.dropWhile isBlankByte).reverse.takeWhile isBlankByte).reverse, ?_, ?_⟩
    · rw [trimBlankBytes, ← List.reverse_append, List.takeWhile_append_dropWhile, List.reverse_reverse]
    · intro b hb
      exact List.mem_takeWhile_imp (List.mem_reverse.mp hb)
  refine ⟨⟨data.takeWhile isBlankByte, after, ?_, ?_⟩, ?_, ?_⟩
  · rw [List.append_assoc, ← hafter.1, List.takeWhile_append_dropWhile]
  · intro b hb
    rcases List.mem_append.mp hb with hb | hb
    · exact isBlankByte_iff.mp (List.mem_takeWhile_imp hb)
    · exact isBlankByte_iff.mp (hafter.2 b hb)
  · intro b hb
    apply hhead data
    rw [hafter.1, List.head?_append, Option.mem_def.mp hb]
    rfl
  · intro b hb
    rw [trimBlankBytes, List.getLast?_reverse] at hb
    exact hhead _ hb

/-- No other text is left without the blanks. -/
theorem Text.Trimmed.eq_trimBlankBytes {data text : List UInt8} (h : Trimmed data text) :
    text = trimBlankBytes data := by
  have hkept {bs : List UInt8} (hbs : ∀ b ∈ bs.head?, b ∉ [32, 9, 10, 12, 13]) :
      bs.dropWhile isBlankByte = bs := by
    cases bs with
    | nil => rfl
    | cons b bs => exact List.dropWhile_cons_of_neg (mt isBlankByte_iff.mp (hbs b rfl))
  obtain ⟨before, after, rfl, hblank⟩ := h.cut
  obtain ⟨hbefore, hafter⟩ := List.forall_mem_append.mp hblank
  have hbefore : ∀ b ∈ before, isBlankByte b = true := fun b hb => isBlankByte_iff.mpr (hbefore b hb)
  have hafter : ∀ b ∈ after, isBlankByte b = true := fun b hb => isBlankByte_iff.mpr (hafter b hb)
  rw [trimBlankBytes, List.append_assoc, List.dropWhile_append_of_pos hbefore,
    List.dropWhile_append, hkept h.first]
  split
  · next hempty =>
    rw [List.dropWhile_eq_nil_iff.mpr hafter, List.isEmpty_iff.mp hempty]
    rfl
  · rw [List.reverse_append, List.dropWhile_append_of_pos (by simpa using hafter), hkept,
      List.reverse_reverse]
    rw [List.head?_reverse]
    exact h.last

/-- Blanks around a text without blanks are removed, and nothing else. -/
theorem Text.trimBlankBytes_append {before text after : List UInt8}
    (hbefore : ∀ b ∈ before, isBlankByte b = true) (htext : ∀ b ∈ text, isBlankByte b = false)
    (hafter : ∀ b ∈ after, isBlankByte b = true) :
    trimBlankBytes (before ++ text ++ after) = text := by
  have hkept {b : UInt8} (hb : b ∈ text) : b ∉ [32, 9, 10, 12, 13] := by
    rw [← isBlankByte_iff, htext b hb]
    exact Bool.false_ne_true
  symm
  apply Trimmed.eq_trimBlankBytes
  refine ⟨⟨before, after, rfl, ?_⟩, ?_, ?_⟩
  · intro b hb
    exact isBlankByte_iff.mp (List.forall_mem_append.mpr ⟨hbefore, hafter⟩ b hb)
  · intro b hb
    exact hkept (List.mem_of_mem_head? hb)
  · intro b hb
    exact hkept (List.mem_of_mem_getLast? hb)

/-- What base64 writes has no blanks in it. -/
theorem Base64.not_blank_of_mem_encode {bytes : List UInt8} {b : UInt8} (hb : b ∈ encode bytes) :
    Text.isBlankByte b = false := by
  have hsymbol : ∀ n < 64, Text.isBlankByte (symbol n) = false := by decide
  obtain ⟨vs, padding, hvs, heq⟩ := exists_encode_eq bytes
  rw [heq] at hb
  rcases List.mem_append.mp hb with hb | hb
  · obtain ⟨v, hv, rfl⟩ := List.mem_map.mp hb
    exact hsymbol v (hvs v hv)
  · rw [List.eq_of_mem_replicate hb]
    rfl

/-- A stored program with blanks around it is read back, and refused if it lacks the header. -/
theorem deserialize_serialize (p : Program) {before after : List UInt8}
    (hbefore : ∀ b ∈ before, b ∈ [32, 9, 10, 12, 13])
    (hafter : ∀ b ∈ after, b ∈ [32, 9, 10, 12, 13]) :
    (Program.header.toList <+: p.bytes.toList → deserialize (before ++ serialize p ++ after) = .ok p) ∧
      (¬ Program.header.toList <+: p.bytes.toList →
        deserialize (before ++ serialize p ++ after) = .error .missingHeader) := by
  have htrim : Text.trimBlankBytes (before ++ serialize p ++ after) = serialize p :=
    Text.trimBlankBytes_append (fun b hb => Text.isBlankByte_iff.mpr (hbefore b hb))
      (fun b hb => Base64.not_blank_of_mem_encode hb)
      (fun b hb => Text.isBlankByte_iff.mpr (hafter b hb))
  have hread : deserialize (before ++ serialize p ++ after) =
      if p.hasHeader then .ok p else .error .missingHeader := by
    rw [deserialize, htrim, serialize, Base64.decode_eq_ok_iff.mpr rfl]
    dsimp only
    rw [Json.readBytes_writeBytes]
  rw [hread, ← Program.hasHeader_iff]
  exact ⟨fun h => if_pos h, fun h => if_neg h⟩

/-- The numbers 9, 10, 99, 100 and 255 and a last group of one byte, with every blank around. -/
theorem deserialize_serialize_blanks :
    deserialize ([32, 9] ++ serialize (.ofBody [9, 10, 99, 100, 255]) ++ [13, 12, 10]) =
        .ok (.ofBody [9, 10, 99, 100, 255]) ∧
      deserialize ([32, 9] ++ serialize ⟨#[0]⟩ ++ [13, 12, 10]) = .error .missingHeader := by
  have hread (p : Program) := @deserialize_serialize p [32, 9] [13, 12, 10] (by simp) (by simp)
  exact ⟨(hread _).1 (List.prefix_append _ _), (hread _).2 (by decide)⟩

end TapeMachine
