import ClassMachine.Opcode.Basic

/-!
# The opcode table

For each opcode its byte, its mnemonic and the number of operand bytes that
follow it.  The table is the only place where an opcode meets its byte, so the
opcode of a byte is looked up in it (`ofByte?_eq_some_iff`).
-/

namespace ClassMachine

structure OpcodeRow where
  byte : UInt8
  mnemonic : String
  operandCount : Nat
  deriving DecidableEq, Repr

namespace Opcode

def row : Opcode → OpcodeRow
  | .nop => ⟨0x00, "nop", 0⟩
  | .aconstNull => ⟨0x01, "aconst_null", 0⟩
  | .iconstM1 => ⟨0x02, "iconst_m1", 0⟩
  | .iconst0 => ⟨0x03, "iconst_0", 0⟩
  | .iconst1 => ⟨0x04, "iconst_1", 0⟩
  | .iconst2 => ⟨0x05, "iconst_2", 0⟩
  | .iconst3 => ⟨0x06, "iconst_3", 0⟩
  | .iconst4 => ⟨0x07, "iconst_4", 0⟩
  | .iconst5 => ⟨0x08, "iconst_5", 0⟩
  | .lconst0 => ⟨0x09, "lconst_0", 0⟩
  | .lconst1 => ⟨0x0a, "lconst_1", 0⟩
  | .fconst0 => ⟨0x0b, "fconst_0", 0⟩
  | .fconst1 => ⟨0x0c, "fconst_1", 0⟩
  | .fconst2 => ⟨0x0d, "fconst_2", 0⟩
  | .dconst0 => ⟨0x0e, "dconst_0", 0⟩
  | .dconst1 => ⟨0x0f, "dconst_1", 0⟩
  | .bipush => ⟨0x10, "bipush", 1⟩
  | .sipush => ⟨0x11, "sipush", 2⟩
  | .ldc => ⟨0x12, "ldc", 1⟩
  | .ldcW => ⟨0x13, "ldc_w", 2⟩
  | .ldc2W => ⟨0x14, "ldc2_w", 2⟩
  | .iload => ⟨0x15, "iload", 1⟩
  | .lload => ⟨0x16, "lload", 1⟩
  | .fload => ⟨0x17, "fload", 1⟩
  | .dload => ⟨0x18, "dload", 1⟩
  | .aload => ⟨0x19, "aload", 1⟩
  | .iload0 => ⟨0x1a, "iload_0", 0⟩
  | .iload1 => ⟨0x1b, "iload_1", 0⟩
  | .iload2 => ⟨0x1c, "iload_2", 0⟩
  | .iload3 => ⟨0x1d, "iload_3", 0⟩
  | .lload0 => ⟨0x1e, "lload_0", 0⟩
  | .lload1 => ⟨0x1f, "lload_1", 0⟩
  | .lload2 => ⟨0x20, "lload_2", 0⟩
  | .lload3 => ⟨0x21, "lload_3", 0⟩
  | .fload0 => ⟨0x22, "fload_0", 0⟩
  | .fload1 => ⟨0x23, "fload_1", 0⟩
  | .fload2 => ⟨0x24, "fload_2", 0⟩
  | .fload3 => ⟨0x25, "fload_3", 0⟩
  | .dload0 => ⟨0x26, "dload_0", 0⟩
  | .dload1 => ⟨0x27, "dload_1", 0⟩
  | .dload2 => ⟨0x28, "dload_2", 0⟩
  | .dload3 => ⟨0x29, "dload_3", 0⟩
  | .aload0 => ⟨0x2a, "aload_0", 0⟩
  | .aload1 => ⟨0x2b, "aload_1", 0⟩
  | .aload2 => ⟨0x2c, "aload_2", 0⟩
  | .aload3 => ⟨0x2d, "aload_3", 0⟩
  | .iaload => ⟨0x2e, "iaload", 0⟩
  | .laload => ⟨0x2f, "laload", 0⟩
  | .faload => ⟨0x30, "faload", 0⟩
  | .daload => ⟨0x31, "daload", 0⟩
  | .aaload => ⟨0x32, "aaload", 0⟩
  | .baload => ⟨0x33, "baload", 0⟩
  | .caload => ⟨0x34, "caload", 0⟩
  | .saload => ⟨0x35, "saload", 0⟩
  | .istore => ⟨0x36, "istore", 1⟩
  | .lstore => ⟨0x37, "lstore", 1⟩
  | .fstore => ⟨0x38, "fstore", 1⟩
  | .dstore => ⟨0x39, "dstore", 1⟩
  | .astore => ⟨0x3a, "astore", 1⟩
  | .istore0 => ⟨0x3b, "istore_0", 0⟩
  | .istore1 => ⟨0x3c, "istore_1", 0⟩
  | .istore2 => ⟨0x3d, "istore_2", 0⟩
  | .istore3 => ⟨0x3e, "istore_3", 0⟩
  | .lstore0 => ⟨0x3f, "lstore_0", 0⟩
  | .lstore1 => ⟨0x40, "lstore_1", 0⟩
  | .lstore2 => ⟨0x41, "lstore_2", 0⟩
  | .lstore3 => ⟨0x42, "lstore_3", 0⟩
  | .fstore0 => ⟨0x43, "fstore_0", 0⟩
  | .fstore1 => ⟨0x44, "fstore_1", 0⟩
  | .fstore2 => ⟨0x45, "fstore_2", 0⟩
  | .fstore3 => ⟨0x46, "fstore_3", 0⟩
  | .dstore0 => ⟨0x47, "dstore_0", 0⟩
  | .dstore1 => ⟨0x48, "dstore_1", 0⟩
  | .dstore2 => ⟨0x49, "dstore_2", 0⟩
  | .dstore3 => ⟨0x4a, "dstore_3", 0⟩
  | .astore0 => ⟨0x4b, "astore_0", 0⟩
  | .astore1 => ⟨0x4c, "astore_1", 0⟩
  | .astore2 => ⟨0x4d, "astore_2", 0⟩
  | .astore3 => ⟨0x4e, "astore_3", 0⟩
  | .iastore => ⟨0x4f, "iastore", 0⟩
  | .lastore => ⟨0x50, "lastore", 0⟩
  | .fastore => ⟨0x51, "fastore", 0⟩
  | .dastore => ⟨0x52, "dastore", 0⟩
  | .aastore => ⟨0x53, "aastore", 0⟩
  | .bastore => ⟨0x54, "bastore", 0⟩
  | .castore => ⟨0x55, "castore", 0⟩
  | .sastore => ⟨0x56, "sastore", 0⟩
  | .pop => ⟨0x57, "pop", 0⟩
  | .pop2 => ⟨0x58, "pop2", 0⟩
  | .dup => ⟨0x59, "dup", 0⟩
  | .dupX1 => ⟨0x5a, "dup_x1", 0⟩
  | .dupX2 => ⟨0x5b, "dup_x2", 0⟩
  | .dup2 => ⟨0x5c, "dup2", 0⟩
  | .dup2X1 => ⟨0x5d, "dup2_x1", 0⟩
  | .dup2X2 => ⟨0x5e, "dup2_x2", 0⟩
  | .swap => ⟨0x5f, "swap", 0⟩
  | .iadd => ⟨0x60, "iadd", 0⟩
  | .ladd => ⟨0x61, "ladd", 0⟩
  | .fadd => ⟨0x62, "fadd", 0⟩
  | .dadd => ⟨0x63, "dadd", 0⟩
  | .isub => ⟨0x64, "isub", 0⟩
  | .lsub => ⟨0x65, "lsub", 0⟩
  | .fsub => ⟨0x66, "fsub", 0⟩
  | .dsub => ⟨0x67, "dsub", 0⟩
  | .imul => ⟨0x68, "imul", 0⟩
  | .lmul => ⟨0x69, "lmul", 0⟩
  | .fmul => ⟨0x6a, "fmul", 0⟩
  | .dmul => ⟨0x6b, "dmul", 0⟩
  | .idiv => ⟨0x6c, "idiv", 0⟩
  | .ldiv => ⟨0x6d, "ldiv", 0⟩
  | .fdiv => ⟨0x6e, "fdiv", 0⟩
  | .ddiv => ⟨0x6f, "ddiv", 0⟩
  | .irem => ⟨0x70, "irem", 0⟩
  | .lrem => ⟨0x71, "lrem", 0⟩
  | .frem => ⟨0x72, "frem", 0⟩
  | .drem => ⟨0x73, "drem", 0⟩
  | .ineg => ⟨0x74, "ineg", 0⟩
  | .lneg => ⟨0x75, "lneg", 0⟩
  | .fneg => ⟨0x76, "fneg", 0⟩
  | .dneg => ⟨0x77, "dneg", 0⟩
  | .ishl => ⟨0x78, "ishl", 0⟩
  | .lshl => ⟨0x79, "lshl", 0⟩
  | .ishr => ⟨0x7a, "ishr", 0⟩
  | .lshr => ⟨0x7b, "lshr", 0⟩
  | .iushr => ⟨0x7c, "iushr", 0⟩
  | .lushr => ⟨0x7d, "lushr", 0⟩
  | .iand => ⟨0x7e, "iand", 0⟩
  | .land => ⟨0x7f, "land", 0⟩
  | .ior => ⟨0x80, "ior", 0⟩
  | .lor => ⟨0x81, "lor", 0⟩
  | .ixor => ⟨0x82, "ixor", 0⟩
  | .lxor => ⟨0x83, "lxor", 0⟩
  | .iinc => ⟨0x84, "iinc", 2⟩
  | .i2l => ⟨0x85, "i2l", 0⟩
  | .i2f => ⟨0x86, "i2f", 0⟩
  | .i2d => ⟨0x87, "i2d", 0⟩
  | .l2i => ⟨0x88, "l2i", 0⟩
  | .l2f => ⟨0x89, "l2f", 0⟩
  | .l2d => ⟨0x8a, "l2d", 0⟩
  | .f2i => ⟨0x8b, "f2i", 0⟩
  | .f2l => ⟨0x8c, "f2l", 0⟩
  | .f2d => ⟨0x8d, "f2d", 0⟩
  | .d2i => ⟨0x8e, "d2i", 0⟩
  | .d2l => ⟨0x8f, "d2l", 0⟩
  | .d2f => ⟨0x90, "d2f", 0⟩
  | .i2b => ⟨0x91, "i2b", 0⟩
  | .i2c => ⟨0x92, "i2c", 0⟩
  | .i2s => ⟨0x93, "i2s", 0⟩
  | .lcmp => ⟨0x94, "lcmp", 0⟩
  | .fcmpl => ⟨0x95, "fcmpl", 0⟩
  | .fcmpg => ⟨0x96, "fcmpg", 0⟩
  | .dcmpl => ⟨0x97, "dcmpl", 0⟩
  | .dcmpg => ⟨0x98, "dcmpg", 0⟩
  | .ifeq => ⟨0x99, "ifeq", 2⟩
  | .ifne => ⟨0x9a, "ifne", 2⟩
  | .iflt => ⟨0x9b, "iflt", 2⟩
  | .ifge => ⟨0x9c, "ifge", 2⟩
  | .ifgt => ⟨0x9d, "ifgt", 2⟩
  | .ifle => ⟨0x9e, "ifle", 2⟩
  | .ifIcmpeq => ⟨0x9f, "if_icmpeq", 2⟩
  | .ifIcmpne => ⟨0xa0, "if_icmpne", 2⟩
  | .ifIcmplt => ⟨0xa1, "if_icmplt", 2⟩
  | .ifIcmpge => ⟨0xa2, "if_icmpge", 2⟩
  | .ifIcmpgt => ⟨0xa3, "if_icmpgt", 2⟩
  | .ifIcmple => ⟨0xa4, "if_icmple", 2⟩
  | .ifAcmpeq => ⟨0xa5, "if_acmpeq", 2⟩
  | .ifAcmpne => ⟨0xa6, "if_acmpne", 2⟩
  | .goto => ⟨0xa7, "goto", 2⟩
  | .jsr => ⟨0xa8, "jsr", 2⟩
  | .ret => ⟨0xa9, "ret", 1⟩
  | .ireturn => ⟨0xac, "ireturn", 0⟩
  | .lreturn => ⟨0xad, "lreturn", 0⟩
  | .freturn => ⟨0xae, "freturn", 0⟩
  | .dreturn => ⟨0xaf, "dreturn", 0⟩
  | .areturn => ⟨0xb0, "areturn", 0⟩
  | .returnVoid => ⟨0xb1, "return", 0⟩
  | .getstatic => ⟨0xb2, "getstatic", 2⟩
  | .putstatic => ⟨0xb3, "putstatic", 2⟩
  | .getfield => ⟨0xb4, "getfield", 2⟩
  | .putfield => ⟨0xb5, "putfield", 2⟩
  | .invokevirtual => ⟨0xb6, "invokevirtual", 2⟩
  | .invokespecial => ⟨0xb7, "invokespecial", 2⟩
  | .invokestatic => ⟨0xb8, "invokestatic", 2⟩
  | .invokeinterface => ⟨0xb9, "invokeinterface", 4⟩
  | .invokedynamic => ⟨0xba, "invokedynamic", 4⟩
  | .new => ⟨0xbb, "new", 2⟩
  | .newarray => ⟨0xbc, "newarray", 1⟩
  | .anewarray => ⟨0xbd, "anewarray", 2⟩
  | .arraylength => ⟨0xbe, "arraylength", 0⟩
  | .athrow => ⟨0xbf, "athrow", 0⟩
  | .checkcast => ⟨0xc0, "checkcast", 2⟩
  | .instanceof => ⟨0xc1, "instanceof", 2⟩
  | .monitorenter => ⟨0xc2, "monitorenter", 0⟩
  | .monitorexit => ⟨0xc3, "monitorexit", 0⟩
  | .multianewarray => ⟨0xc5, "multianewarray", 3⟩
  | .ifnull => ⟨0xc6, "ifnull", 2⟩
  | .ifnonnull => ⟨0xc7, "ifnonnull", 2⟩
  | .gotoW => ⟨0xc8, "goto_w", 4⟩
  | .jsrW => ⟨0xc9, "jsr_w", 4⟩

def byte (opcode : Opcode) : UInt8 := opcode.row.byte

def mnemonic (opcode : Opcode) : String := opcode.row.mnemonic

/-- How many operand bytes follow the opcode. -/
def operandCount (opcode : Opcode) : Nat := opcode.row.operandCount

def ofByte? (byte : UInt8) : Option Opcode :=
  all.find? (·.byte == byte)

@[simp]
theorem ofByte?_byte (opcode : Opcode) : ofByte? opcode.byte = some opcode := by
  cases opcode <;> decide +kernel

theorem byte_of_ofByte? {byte : UInt8} {opcode : Opcode} (h : ofByte? byte = some opcode) :
    opcode.byte = byte := by
  simpa using List.find?_some h

theorem ofByte?_eq_some_iff {byte : UInt8} {opcode : Opcode} :
    ofByte? byte = some opcode ↔ opcode.byte = byte := by
  constructor
  · exact byte_of_ofByte?
  · intro h
    rw [← h, ofByte?_byte]

theorem byte_injective {a b : Opcode} (h : a.byte = b.byte) : a = b := by
  have := ofByte?_byte a
  rw [h, ofByte?_byte] at this
  exact (Option.some.inj this).symm

end Opcode

end ClassMachine
