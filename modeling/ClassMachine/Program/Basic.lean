import ClassMachine.Code.LineTable
import ClassMachine.Descriptor.Basic
import ClassMachine.Instruction.Decode

/-!
# Programs

What a run needs of a class: the constant pool, and the code of one method with
its argument types and its source lines.  A program exists only for code that
decodes, and carries the decoded instructions and the size of the bytecode, so that
neither is worked out again at each step.
-/

namespace ClassMachine

structure Program where
  pool : Pool
  methodType : Option MethodType
  code : Code
  lines : List LineNumber
  instructions : Array Instruction
  decode_eq : Bytecode.decode code.bytecode = .ok instructions
  codeSize : Nat := code.bytecode.length
  codeSize_eq : codeSize = code.bytecode.length := by rfl
  deriving Repr

namespace Program

/-- Looks for the instruction at `offset` among those from `low` to before `high`,
halving the range at each comparison. -/
def search (instructions : Array Instruction) (offset low high : Nat)
    (hhigh : high ≤ instructions.size) : Option Instruction :=
  if hlow : low < high then
    let middle := low + (high - low) / 2
    have hmiddle : middle < instructions.size := by omega
    let found := instructions[middle]
    if found.offset = offset then some found
    else if found.offset < offset then search instructions offset (middle + 1) high hhigh
    else search instructions offset low middle (Nat.le_of_lt hmiddle)
  else
    none
termination_by high - low

def instructionAt? (p : Program) (offset : Nat) : Option Instruction :=
  search p.instructions offset 0 p.instructions.size (Nat.le_refl _)

def lineFor? (p : Program) (offset : Nat) : Option UInt16 :=
  LineTable.lineFor? p.lines offset

def argTypes (p : Program) : List DescriptorType :=
  (p.methodType.map (·.args)).getD []

/-- Puts the zero values of the types into the local variables from `slot` on, as
far as there are any. -/
def seedLocals (slot : Nat) (locals : Array (Option Value)) :
    List DescriptorType → Array (Option Value)
  | [] => locals
  | type :: types =>
      if slot < locals.size then
        seedLocals (slot + type.size) (locals.setIfInBounds slot type.zeroValue) types
      else
        locals

/-- The local variables at the start of a run: zero values for the arguments, all
others unset. -/
def initialLocals (p : Program) : Array (Option Value) :=
  seedLocals 0 (Array.replicate p.code.maxLocals.toNat none) p.argTypes

end Program

end ClassMachine
