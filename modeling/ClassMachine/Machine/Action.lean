import ClassMachine.Instruction.Basic
import ClassMachine.Value

/-!
# What instructions do

An instruction means one of a few actions on a machine; instructions that differ
only in where they keep an operand have the same action.  Opcodes without a
meaning here have the action `unhandled`.  Branches carry the distance from the
start of their own instruction.

An instruction with fewer operand bytes than its opcode needs has no action.
-/

namespace ClassMachine

inductive Comparison where
  | eq
  | ne
  | lt
  | ge
  | gt
  | le
  deriving DecidableEq, Repr

namespace Comparison

def holds : Comparison → Int32 → Int32 → Bool
  | .eq, a, b => a == b
  | .ne, a, b => a != b
  | .lt, a, b => a < b
  | .ge, a, b => b ≤ a
  | .gt, a, b => b < a
  | .le, a, b => a ≤ b

end Comparison

/-- Integer arithmetic; all of it wraps around at 32 bits, and quotients are
rounded towards zero. -/
inductive IntOp where
  | add
  | sub
  | mul
  | div
  | rem
  deriving DecidableEq, Repr

inductive Action where
  | nop
  | push (value : Value)
  | loadConstant (index : UInt16) (wide : Bool)
  | load (type : OperandType) (index : Nat)
  | store (type : OperandType) (index : Nat)
  | pop
  | dup
  | compute (op : IntOp)
  | negate
  | increment (index : Nat) (amount : Int32)
  | branch (distance : Int)
  /-- Compares an integer with zero. -/
  | branchZero (comparison : Comparison) (distance : Int)
  /-- Compares two integers. -/
  | branchInts (comparison : Comparison) (distance : Int)
  /-- Branches when two references are the same, or when they are not. -/
  | branchSame (same : Bool) (distance : Int)
  /-- Branches when a reference is null, or when it is not. -/
  | branchNull (null : Bool) (distance : Int)
  | allocate (classIndex : UInt16)
  | returnValue (type : OperandType)
  | returnVoid
  | unhandled
  deriving DecidableEq, Repr

namespace Instruction

/-- The distance of a branch with a two-byte operand. -/
def distance? (i : Instruction) : Option Int :=
  i.i16?.map (·.toInt)

/-- The local variable that the operand byte names. -/
def local? (i : Instruction) : Option Nat :=
  i.u8?.map (·.toNat)

def action? (i : Instruction) : Option Action :=
  match i.opcode with
  | .nop => some .nop
  | .aconstNull => some (.push .null)
  | .iconstM1 => some (.push (.int (-1)))
  | .iconst0 => some (.push (.int 0))
  | .iconst1 => some (.push (.int 1))
  | .iconst2 => some (.push (.int 2))
  | .iconst3 => some (.push (.int 3))
  | .iconst4 => some (.push (.int 4))
  | .iconst5 => some (.push (.int 5))
  | .lconst0 => some (.push (.long 0))
  | .lconst1 => some (.push (.long 1))
  | .fconst0 => some (.push (.float .zero))
  | .fconst1 => some (.push (.float .one))
  | .fconst2 => some (.push (.float .two))
  | .dconst0 => some (.push (.double .zero))
  | .dconst1 => some (.push (.double .one))
  | .bipush => i.i8?.map fun value => .push (.int value.toInt32)
  | .sipush => i.i16?.map fun value => .push (.int value.toInt32)
  | .ldc => i.u8?.map fun index => .loadConstant index.toUInt16 false
  | .ldcW => i.u16?.map fun index => .loadConstant index false
  | .ldc2W => i.u16?.map fun index => .loadConstant index true
  | .iload => i.local?.map (.load .int)
  | .iload0 => some (.load .int 0)
  | .iload1 => some (.load .int 1)
  | .iload2 => some (.load .int 2)
  | .iload3 => some (.load .int 3)
  | .aload => i.local?.map (.load .reference)
  | .aload0 => some (.load .reference 0)
  | .aload1 => some (.load .reference 1)
  | .aload2 => some (.load .reference 2)
  | .aload3 => some (.load .reference 3)
  | .istore => i.local?.map (.store .int)
  | .istore0 => some (.store .int 0)
  | .istore1 => some (.store .int 1)
  | .istore2 => some (.store .int 2)
  | .istore3 => some (.store .int 3)
  | .astore => i.local?.map (.store .reference)
  | .astore0 => some (.store .reference 0)
  | .astore1 => some (.store .reference 1)
  | .astore2 => some (.store .reference 2)
  | .astore3 => some (.store .reference 3)
  | .pop => some .pop
  | .dup => some .dup
  | .iadd => some (.compute .add)
  | .isub => some (.compute .sub)
  | .imul => some (.compute .mul)
  | .idiv => some (.compute .div)
  | .irem => some (.compute .rem)
  | .ineg => some .negate
  | .iinc =>
      match i.local?, i.second? with
      | some index, some amount => some (.increment index amount.toInt32)
      | _, _ => none
  | .ifeq => i.distance?.map (.branchZero .eq)
  | .ifne => i.distance?.map (.branchZero .ne)
  | .iflt => i.distance?.map (.branchZero .lt)
  | .ifge => i.distance?.map (.branchZero .ge)
  | .ifgt => i.distance?.map (.branchZero .gt)
  | .ifle => i.distance?.map (.branchZero .le)
  | .ifIcmpeq => i.distance?.map (.branchInts .eq)
  | .ifIcmpne => i.distance?.map (.branchInts .ne)
  | .ifIcmplt => i.distance?.map (.branchInts .lt)
  | .ifIcmpge => i.distance?.map (.branchInts .ge)
  | .ifIcmpgt => i.distance?.map (.branchInts .gt)
  | .ifIcmple => i.distance?.map (.branchInts .le)
  | .ifAcmpeq => i.distance?.map (.branchSame true)
  | .ifAcmpne => i.distance?.map (.branchSame false)
  | .ifnull => i.distance?.map (.branchNull true)
  | .ifnonnull => i.distance?.map (.branchNull false)
  | .goto => i.distance?.map .branch
  | .gotoW => i.i32?.map fun distance => .branch distance.toInt
  | .new => i.u16?.map .allocate
  | .ireturn => some (.returnValue .int)
  | .lreturn => some (.returnValue .long)
  | .freturn => some (.returnValue .float)
  | .dreturn => some (.returnValue .double)
  | .areturn => some (.returnValue .reference)
  | .returnVoid => some .returnVoid
  | _ => some .unhandled

end Instruction

end ClassMachine
