import ClassMachine.Text.Hex

/-!
# Malformed input

The ways in which a byte string fails to be a class file, a bytecode or a
descriptor.  Every reading step names the part it was reading, so an error at
the end of the input says which part is missing.
-/

namespace ClassMachine

inductive FormatError where
  /-- The first four bytes are not the class file magic. -/
  | invalidMagic (found : UInt32)
  /-- The input ended before a part was complete. -/
  | unexpectedEnd (part : String)
  /-- A declared number of items needs more bytes than the input has left. -/
  | countExceedsInput (part : String) (count remaining : Nat)
  | unknownTag (tag : UInt8) (index : Nat)
  | invalidUtf8 (index : Nat)
  | unsupportedOpcode (byte : UInt8) (offset : Nat)
  /-- The operands of an opcode run past the end of the bytecode. -/
  | truncatedOperands (byte : UInt8) (offset : Nat)
  | invalidDescriptor (text : String)
  | trailingBytes (count : Nat)
  deriving DecidableEq, Repr

namespace FormatError

def message : FormatError → String
  | .invalidMagic found => "invalid magic number 0x" ++ Hex.upper 8 found.toNat
  | .unexpectedEnd part => "unexpected end of input while reading " ++ part
  | .countExceedsInput part count remaining =>
      part ++ " count " ++ toString count ++ " exceeds remaining input (" ++
        toString remaining ++ " bytes)"
  | .unknownTag tag index =>
      "unknown constant pool tag " ++ toString tag.toNat ++ " at index " ++ toString index
  | .invalidUtf8 index => "invalid UTF-8 in constant pool entry " ++ toString index
  | .unsupportedOpcode byte offset =>
      "unsupported opcode 0x" ++ Hex.lower 2 byte.toNat ++ " at offset " ++ toString offset
  | .truncatedOperands byte offset =>
      "truncated operands for opcode 0x" ++ Hex.lower 2 byte.toNat ++ " at offset " ++
        toString offset
  | .invalidDescriptor text => "invalid method descriptor \"" ++ text ++ "\""
  | .trailingBytes count =>
      toString count ++ " unexpected trailing bytes after class attributes"

end FormatError

end ClassMachine
