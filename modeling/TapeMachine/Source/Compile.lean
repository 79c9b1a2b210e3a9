import TapeMachine.Program
import TapeMachine.Source.Balance

/-!
# From source text to program and back

Compiling keeps the instruction characters of a text in order and never fails; it does not look at
the nesting of brackets, so whoever runs or stores the result checks them first. Going back, the
header, `halt` and unknown bytes leave no text.
-/

namespace TapeMachine

/-- Turn a source text into a program, whether or not its brackets balance. -/
def compile (source : String) : Program :=
  .ofOpcodes ((Lexer.ofString source).tokens.map Token.opcode)

/-- Turn a program into the source text of its instructions. -/
def decompile (p : Program) : String :=
  String.ofList (p.body.filterMap fun b => (Opcode.ofByte? b).bind Opcode.char?)

/-- Turn a source text into a program if its brackets balance. -/
def compileChecked (source : String) : Except Unbalanced Program :=
  match checkBalanced source with
  | .error e => .error e
  | .ok () => .ok (compile source)

end TapeMachine
