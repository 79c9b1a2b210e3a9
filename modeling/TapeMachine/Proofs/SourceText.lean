import TapeMachine.Proofs.Brackets
import TapeMachine.Source.Compile

/-!
# The instructions of a source text

Places and comments do not matter for what a text compiles to or for whether its brackets balance:
both depend on the instructions that its characters stand for, in order.
-/

namespace TapeMachine

/-- The instructions that the characters of a source text stand for. -/
def instructions (source : String) : List Opcode := source.toList.filterMap Opcode.ofChar?

/-- The tokens of a text are its instructions, wherever they stand. -/
theorem Lexer.tokensFrom_opcodes (place : Place) (cs : List Char) :
    (tokensFrom place cs).map Token.opcode = cs.filterMap Opcode.ofChar? := by
  induction cs generalizing place with
  | nil => rfl
  | cons c cs ih =>
    cases hop : Opcode.ofChar? c with
    | none => simpa [tokensFrom, hop] using ih (place.after c)
    | some op => simpa [tokensFrom, hop] using ih (place.after c)

/-- Compiling frames the instructions of a text. -/
theorem compile_eq (source : String) : compile source = .ofOpcodes (instructions source) := by
  rw [compile, Lexer.tokens, Lexer.tokensFrom_opcodes]
  rfl

/-- The instructions of a framed program stand behind its header. -/
theorem Program.body_ofOpcodes (ops : List Opcode) :
    (ofOpcodes ops).body = ops.map Opcode.byte ++ [Opcode.halt.byte] := by
  rw [body, toList_bytes_ofOpcodes]
  rfl

/-- The characters that stand for instructions. -/
def instructionChars : List Char := ['>', '<', '+', '-', '.', ',', '[', ']']

/-- A character that stands for an instruction is the character of that instruction. -/
theorem Opcode.ofChar?_bind_char? (c : Char) :
    (ofChar? c).bind char? = if c ∈ instructionChars then some c else none := by
  cases hop : ofChar? c with
  | some op =>
    have hchar : op.char? = some c := ofChar?_eq_some_iff.mp hop
    have hmem : c ∈ instructionChars := by
      cases op <;> simp [char?] at hchar <;> subst hchar <;> decide
    rw [if_pos hmem]
    exact hchar
  | none =>
    have hall : instructionChars.all (fun c => (ofChar? c).isSome) = true := by decide
    have hnot : c ∉ instructionChars := by
      intro hmem
      have hsome := List.all_eq_true.mp hall c hmem
      rw [hop] at hsome
      contradiction
    rw [if_neg hnot]
    rfl

/-- Compiling a text and going back leaves its instruction characters. -/
theorem decompile_compile (source : String) :
    decompile (compile source) = String.ofList (source.toList.filter (· ∈ instructionChars)) := by
  have hkept (cs : List Char) : (cs.filterMap Opcode.ofChar?).filterMap Opcode.char? =
      cs.filter (· ∈ instructionChars) := by
    rw [List.filterMap_filterMap, ← List.filterMap_eq_filter]
    congr 1
    funext c
    simp [Opcode.ofChar?_bind_char?, Option.guard]
  rw [decompile, compile_eq, Program.body_ofOpcodes, List.filterMap_append, List.filterMap_map]
  simp only [Function.comp_def, Opcode.ofByte?_byte, Option.bind_some]
  rw [instructions, hkept]
  simp [Opcode.char?]

/-- No character stands for `halt`. -/
theorem halt_not_mem_instructions (source : String) : Opcode.halt ∉ instructions source := by
  intro h
  obtain ⟨c, -, hc⟩ := List.mem_filterMap.mp h
  have hchar := Opcode.ofChar?_eq_some_iff.mp hc
  simp [Opcode.char?] at hchar

namespace Lexer

variable {place : Place} {opened : List Place} {c : Char} {cs : List Char}

/-- The check passes over anything but a bracket. -/
theorem balanceFrom_plain (hc : bracketOfChar? c = none) :
    balanceFrom place opened (c :: cs) = balanceFrom (place.after c) opened cs := by
  cases hop : Opcode.ofChar? c with
  | none => simp [balanceFrom, hop]
  | some op =>
    have hside : op.bracket? = none := by simpa [bracketOfChar?, hop] using hc
    cases op <;> first | contradiction | simp [balanceFrom, hop]

/-- The check keeps the place of an opening bracket. -/
theorem balanceFrom_opening (hc : bracketOfChar? c = some .opening) :
    balanceFrom place opened (c :: cs) = balanceFrom (place.after c) (place :: opened) cs := by
  obtain ⟨op, hop, hside⟩ := Option.bind_eq_some_iff.mp hc
  obtain rfl := Opcode.bracket?_eq_opening.mp hside
  simp only [balanceFrom, hop]

/-- The check forgets the innermost open bracket at a closing one, or ends there with none open. -/
theorem balanceFrom_closing (hc : bracketOfChar? c = some .closing) :
    balanceFrom place opened (c :: cs) =
      match opened with
      | [] => (.error ⟨.closing, place.line, place.column⟩, ⟨place.after c, cs⟩)
      | _ :: opened => balanceFrom (place.after c) opened cs := by
  obtain ⟨op, hop, hside⟩ := Option.bind_eq_some_iff.mp hc
  obtain rfl := Opcode.bracket?_eq_closing.mp hside
  cases opened <;> simp only [balanceFrom, hop]

/-- The check passes exactly when counting brackets comes down to zero. -/
theorem balanceFrom_eq_ok_iff (place : Place) (opened : List Place) (cs : List Char) :
    (balanceFrom place opened cs).1 = .ok () ↔
      depth? bracketOfChar? opened.length cs = some 0 := by
  induction cs generalizing place opened with
  | nil => cases opened <;> simp [balanceFrom, depth?]
  | cons c cs ih =>
    cases hside : bracketOfChar? c with
    | none =>
      rw [balanceFrom_plain hside, ih]
      simp only [depth?, hside]
    | some bracket =>
      cases bracket with
      | opening =>
        rw [balanceFrom_opening hside, ih]
        simp only [depth?, hside, List.length_cons]
      | closing =>
        rw [balanceFrom_closing hside]
        cases opened with
        | nil => simp [depth?, hside]
        | cons q opened => simp only [depth?, hside, List.length_cons, ih]

end Lexer

/-- A text passes the check exactly when its instructions balance. -/
theorem checkBalanced_eq_ok_iff (source : String) :
    checkBalanced source = .ok () ↔ Balanced Opcode.bracket? (instructions source) := by
  rw [checkBalanced, Lexer.checkBalanced, Lexer.balanceFrom_eq_ok_iff, instructions,
    balanced_filterMap_iff, balanced_iff_depth?]
  rfl

end TapeMachine
