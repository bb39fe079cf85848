import ClassMachine.Bytes.Reader
import ClassMachine.Instruction.Basic

/-!
# Bytecode

A bytecode is a row of instructions without gaps: each starts where the one
before it ends, the first at offset 0.  Decoding stops at the first byte that is
no opcode, or at an opcode with too few bytes behind it.
-/

namespace ClassMachine

namespace Bytecode

/-- Decodes the bytes from `offset` on and appends to the instructions before it. -/
def decodeFrom (offset : Nat) (bytes : List UInt8) (before : Array Instruction) :
    Except FormatError (Array Instruction) :=
  match bytes with
  | [] => .ok before
  | byte :: rest =>
      match Opcode.ofByte? byte with
      | none => .error (.unsupportedOpcode byte offset)
      | some opcode =>
          if hasAtLeast opcode.operandCount rest then
            let instruction := Instruction.mk offset opcode (rest.take opcode.operandCount)
            decodeFrom instruction.nextOffset (rest.drop opcode.operandCount)
              (before.push instruction)
          else
            .error (.truncatedOperands byte offset)
termination_by bytes.length
decreasing_by
  rw [List.length_drop, List.length_cons]
  omega

def decode (bytes : List UInt8) : Except FormatError (Array Instruction) :=
  decodeFrom 0 bytes #[]

end Bytecode

end ClassMachine
