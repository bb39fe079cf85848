import ClassMachine.Bytes.BigEndian
import ClassMachine.Opcode.Table
import ClassMachine.Text.Hex

/-!
# Instructions

An opcode with the operand bytes that follow it and the offset at which it stands
in its bytecode.  The operands can be read as one number in several widths; a
reading needs enough operand bytes.
-/

namespace ClassMachine

structure Instruction where
  offset : Nat
  opcode : Opcode
  operands : List UInt8
  deriving DecidableEq, Repr

namespace Instruction

def nextOffset (i : Instruction) : Nat := i.offset + 1 + i.operands.length

/-- The bytes that the instruction takes in its bytecode. -/
def toBytes (i : Instruction) : List UInt8 := i.opcode.byte :: i.operands

/-- The first `width` operand bytes as one number. -/
def operand? (i : Instruction) (width : Nat) : Option Nat :=
  if width ≤ i.operands.length then some (BigEndian.ofBytes (i.operands.take width)) else none

def u8? (i : Instruction) : Option UInt8 := (i.operand? 1).map UInt8.ofNat

def i8? (i : Instruction) : Option Int8 := i.u8?.map (·.toInt8)

def u16? (i : Instruction) : Option UInt16 := (i.operand? 2).map UInt16.ofNat

def i16? (i : Instruction) : Option Int16 := i.u16?.map (·.toInt16)

def i32? (i : Instruction) : Option Int32 := (i.operand? 4).map fun n => (UInt32.ofNat n).toInt32

/-- The second operand byte, signed. -/
def second? (i : Instruction) : Option Int8 := i.operands[1]?.map (·.toInt8)

/-- The offset in four columns, the mnemonic, and the operand bytes. -/
def text (i : Instruction) : String :=
  let offset := Nat.toDigits 10 i.offset
  String.ofList (List.replicate (4 - offset.length) ' ' ++ offset) ++ ": " ++ i.opcode.mnemonic ++
    String.join (i.operands.map fun byte => " " ++ Hex.lower 2 byte.toNat)

end Instruction

end ClassMachine
