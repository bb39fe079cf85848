import ClassMachine.Opcode.Table
import ClassMachine.Pool.Basic
import ClassMachine.Value

/-!
# Faults

What stops a run before its end.  A fault has a cause, the offset of the
instruction that it arose at, and the source line of that offset if it is known.
-/

namespace ClassMachine

inductive FaultCause where
  | typeMismatch (expected : OperandType) (found : ValueType)
  | divisionByZero
  | stackUnderflow
  | stackOverflow (maxStack : UInt16)
  /-- The local variable does not exist, or nothing was stored in it yet. -/
  | invalidLocal (index : Nat)
  | invalidBranch (target : Int)
  | unhandledOpcode (opcode : Opcode)
  | budgetExhausted (limit : Nat)
  | unloadableConstant (index : UInt16)
  | poolIndex (error : IndexError)
  /-- The instruction lacks operand bytes; no decoded instruction does. -/
  | missingOperands (opcode : Opcode)
  deriving DecidableEq, Repr

namespace FaultCause

def message : FaultCause → String
  | .typeMismatch expected found =>
      "TypeError: operand not " ++ expected.description ++ ", found " ++ found.name
  | .divisionByZero => "ArithmeticError: divide by zero"
  | .stackUnderflow => "operand stack underflow"
  | .stackOverflow maxStack =>
      "operand stack overflow, max stack is " ++ toString maxStack.toNat
  | .invalidLocal index => "invalid local variable " ++ toString index
  | .invalidBranch target => "branch target " ++ toString target ++ " is not an instruction"
  | .unhandledOpcode opcode => "no handler for opcode " ++ opcode.mnemonic
  | .budgetExhausted limit => "instruction budget of " ++ toString limit ++ " exhausted"
  | .unloadableConstant index =>
      "constant pool entry " ++ toString index.toNat ++ " can't be loaded onto the stack"
  | .poolIndex error => error.message
  | .missingOperands opcode => "missing operands of opcode " ++ opcode.mnemonic

end FaultCause

structure Fault where
  cause : FaultCause
  pc : Nat
  line : Option UInt16
  deriving DecidableEq, Repr

namespace Fault

def message (fault : Fault) : String :=
  let place := fault.cause.message ++ " at pc " ++ toString fault.pc
  match fault.line with
  | none => place
  | some line => place ++ " (line " ++ toString line.toNat ++ ")"

end Fault

end ClassMachine
