import TapeMachine.Opcode

/-!
# Programs

A program is a string of bytes. A proper one starts with a fixed header of sixteen bytes, goes on
with one byte per instruction and ends in `halt`, but any bytes can be held: whoever runs a program
checks the header and every instruction as it is met.
-/

namespace TapeMachine

/-- A stream of instruction bytes behind a header. -/
structure Program where
  /-- All bytes, header included. -/
  bytes : Array UInt8
deriving DecidableEq

namespace Program

/-- The sixteen bytes `|--BRAINFUCK!--|` that every proper program starts with. -/
def header : Array UInt8 :=
  #[124, 45, 45, 66, 82, 65, 73, 78, 70, 85, 67, 75, 33, 45, 45, 124]

/-- The text of the complaint about a program that does not start with the header. -/
def missingHeaderMessage : String :=
  "Not a valid bytecode file (missing \"|--BRAINFUCK!--|\" header)"

/-- The position of the first instruction. -/
def entry : Nat := 16

/-- Put instructions behind the header and close them with `halt`. -/
def ofOpcodes (ops : List Opcode) : Program :=
  ⟨header ++ (ops.map Opcode.byte).toArray ++ #[Opcode.halt.byte]⟩

/-- Put arbitrary bytes behind the header. -/
def ofBody (body : List UInt8) : Program := ⟨header ++ body.toArray⟩

/-- Whether the program starts with the header. -/
def hasHeader (p : Program) : Bool := header.isPrefixOf p.bytes

/-- The number of bytes, header included. -/
def size (p : Program) : Nat := p.bytes.size

/-- The bytes after the first sixteen. -/
def body (p : Program) : List UInt8 := p.bytes.toList.drop entry

/-- The byte at a position, if the program is that long. -/
def get? (p : Program) (ip : Nat) : Option UInt8 := p.bytes[ip]?

/-- The header fills the positions before the first instruction. -/
theorem size_header : header.size = entry := rfl

/-- A program starts with the header when its bytes go on from the bytes of the header. -/
theorem hasHeader_iff {p : Program} : p.hasHeader = true ↔ header.toList <+: p.bytes.toList := by
  rw [hasHeader, ← Array.isPrefixOf_toList, List.isPrefixOf_iff_prefix]

/-- The bytes of a framed program in order. -/
theorem toList_bytes_ofOpcodes (ops : List Opcode) :
    (ofOpcodes ops).bytes.toList = header.toList ++ (ops.map Opcode.byte ++ [Opcode.halt.byte]) := by
  simp only [ofOpcodes, Array.toList_append, List.append_assoc]

/-- A framed program starts with the header. -/
theorem hasHeader_ofOpcodes (ops : List Opcode) : (ofOpcodes ops).hasHeader = true := by
  rw [hasHeader_iff, toList_bytes_ofOpcodes]
  exact List.prefix_append _ _

end Program

end TapeMachine
