import TapeMachine.Proofs.WellFormed

/-!
# From programs to source text and back

A source text and a program each have more room than the other: comments leave no bytes, and the
header, `halt` and bytes that are no instruction leave no text. What both can hold is instructions with
a source character, and these survive both ways. So going from a program to text and back gives the
program that has the same instructions and nothing else, framed by the header and one `halt`.
-/

namespace TapeMachine

/-- A byte leaves text exactly if it is at most seven, and then the text leads back to it. -/
theorem Opcode.map_byte_of_text (b : UInt8) :
    (((ofByte? b).bind char?).bind ofChar?).map byte = if b ≤ 7 then some b else none := by
  by_cases hb : b ≤ 7
  · obtain ⟨op, hop, rfl⟩ := Program.exists_opcode_of_le hb
    obtain ⟨c, hc⟩ : ∃ c, op.char? = some c := by
      cases op <;> first | contradiction | exact ⟨_, rfl⟩
    rw [if_pos hb, ofByte?_byte, Option.bind_some, hc, Option.bind_some, ofChar?_eq_some_iff.mpr hc,
      Option.map_some]
  · rw [if_neg hb]
    cases hop : ofByte? b with
    | none => rfl
    | some op =>
      obtain rfl := eq_byte_of_ofByte? hop
      have hhalt : op = .halt := by
        by_contra hne
        exact hb (Program.byte_le_of_ne_halt hne)
      rw [hhalt]
      rfl

/-- The text of a program stands for the bytes of its body that are at most seven, in order. -/
theorem map_byte_instructions_decompile (p : Program) :
    (instructions (decompile p)).map Opcode.byte = p.body.filter (· ≤ 7) := by
  rw [instructions, decompile, String.toList_ofList, List.filterMap_filterMap, List.map_filterMap,
    ← List.filterMap_eq_filter]
  congr 1
  funext b
  rw [Opcode.map_byte_of_text]
  simp [Option.guard]

/-- From a program to text and back, the bytes of its body that are at most seven are framed anew. -/
theorem toList_bytes_compile_decompile (p : Program) :
    (compile (decompile p)).bytes.toList =
      Program.header.toList ++ (p.body.filter (· ≤ 7) ++ [Opcode.halt.byte]) := by
  rw [compile_eq, Program.toList_bytes_ofOpcodes, map_byte_instructions_decompile]

/-- A text keeps its instruction characters on the way to a program and back. A program keeps the bytes
behind its first sixteen that are at most seven on the way to a text and back, between the header and
one `halt`; so exactly the programs that have nothing else come back as they are. -/
theorem compile_decompile_exact :
    (∀ source : String, decompile (compile source) =
      String.ofList (source.toList.filter (· ∈ ['>', '<', '+', '-', '.', ',', '[', ']']))) ∧
    ∀ p : Program,
      (compile (decompile p)).bytes.toList =
          Program.header.toList ++ (p.bytes.toList.drop 16).filter (· ≤ 7) ++ [8] ∧
        (compile (decompile p) = p ↔
          ∃ w, (∀ b ∈ w, b ≤ 7) ∧ p.bytes.toList = Program.header.toList ++ w ++ [8]) := by
  refine ⟨decompile_compile, fun p => ?_⟩
  have hbytes : (compile (decompile p)).bytes.toList =
      Program.header.toList ++ p.body.filter (· ≤ 7) ++ [8] := by
    rw [toList_bytes_compile_decompile, List.append_assoc]
    rfl
  refine ⟨hbytes, fun h => ?_, fun h => ?_⟩
  · refine ⟨p.body.filter (· ≤ 7), fun b hb => by simpa using (List.mem_filter.mp hb).2, ?_⟩
    rw [← hbytes, h]
  · obtain ⟨w, hw, hp⟩ := h
    have hbody : p.body = w ++ [8] := by
      rw [Program.body, hp, List.append_assoc, ← Program.size_header, ← Array.length_toList,
        List.drop_left]
    -- Nothing of `w` is lost, and the `halt` behind it is dropped and put back.
    have hkept : p.body.filter (· ≤ 7) = w := by
      rw [hbody, List.filter_append, List.filter_eq_self.mpr (by simpa using hw)]
      simp
    have hsame : (compile (decompile p)).bytes.toList = p.bytes.toList := by rw [hbytes, hkept, hp]
    exact congrArg Program.mk (Array.toList_inj.mp hsame)

end TapeMachine
