import ClassMachine.Machine.Action
import ClassMachine.Machine.Basic

/-!
# Executing actions

An execution changes the machine and either says whether the run goes on or names
the cause of a fault.  What was changed before a fault stays changed: operands that
were popped are gone, and an object that was allocated stays allocated.

Of two operands the right one is on top, and is popped and checked first.
-/

namespace ClassMachine

abbrev Execution := EStateM FaultCause Machine

/-- Whether the run goes on after an instruction. -/
inductive Flow where
  | next
  | halt
  deriving DecidableEq, Repr

namespace Execution

def push (p : Program) (value : Value) : Execution Unit := fun m =>
  if m.stack.size < p.code.maxStack.toNat then
    .ok () { m with stack := m.stack.push value }
  else
    .error (.stackOverflow p.code.maxStack) m

def pop : Execution Value := fun m =>
  match m.stack.back? with
  | some value => .ok value { m with stack := m.stack.pop }
  | none => .error .stackUnderflow m

def load (index : Nat) : Execution Value := fun m =>
  match m.locals[index]? with
  | some (some value) => .ok value m
  | _ => .error (.invalidLocal index) m

def store (index : Nat) (value : Value) : Execution Unit := fun m =>
  if index < m.locals.size then
    .ok () { m with locals := m.locals.setIfInBounds index (some value) }
  else
    .error (.invalidLocal index) m

def check (type : OperandType) (value : Value) : Execution Unit :=
  if type.accepts value.type then return else throw (.typeMismatch type value.type)

def checkInt : Value → Execution Int32
  | .int value => return value
  | value => throw (.typeMismatch .int value.type)

def popInt : Execution Int32 := do
  checkInt (← pop)

def popReference : Execution Value := do
  let value ← pop
  check .reference value
  return value

def setReturned (value : Value) : Execution Unit :=
  modify fun m => { m with returned := some value }

def allocate (classIndex : UInt16) : Execution Value := fun m =>
  .ok (.reference m.heap.nextId) { m with heap := m.heap.allocate classIndex }

/-- Goes on at the instruction that is `distance` bytes away from the start of `i`. -/
def branch (p : Program) (i : Instruction) (distance : Int) : Execution Unit := fun m =>
  let target := (i.offset : Int) + distance
  if target < 0 then
    .error (.invalidBranch target) m
  else
    match p.instructionAt? target.toNat with
    | none => .error (.invalidBranch target) m
    | some _ => .ok () { m with pc := target.toNat }

def branchWhen (p : Program) (i : Instruction) (condition : Bool) (distance : Int) :
    Execution Unit :=
  if condition then branch p i distance else return

end Execution

namespace IntOp

def apply : IntOp → Int32 → Int32 → Except FaultCause Int32
  | .add, a, b => .ok (a + b)
  | .sub, a, b => .ok (a - b)
  | .mul, a, b => .ok (a * b)
  | .div, a, b => if b = 0 then .error .divisionByZero else .ok (a / b)
  | .rem, a, b => if b = 0 then .error .divisionByZero else .ok (a % b)

end IntOp

namespace Pool

/-- The value of a numeric constant.  Long and double constants are loaded by other
instructions than integer and float constants. -/
def loadable? (pool : Pool) (index : UInt16) (wide : Bool) : Except FaultCause Value :=
  match pool.get index with
  | .error error => .error (.poolIndex error)
  | .ok constant =>
      match constant, wide with
      | .integer value, false => .ok (.int value)
      | .float value, false => .ok (.float value)
      | .long value, true => .ok (.long value)
      | .double value, true => .ok (.double value)
      | _, _ => .error (.unloadableConstant index)

end Pool

namespace Execution

def perform (p : Program) (policy : UnhandledPolicy) (i : Instruction) :
    Action → Execution Flow
  | .nop => return .next
  | .push value => do
      push p value
      return .next
  | .loadConstant index wide => do
      let value ← ofExcept (p.pool.loadable? index wide)
      push p value
      return .next
  | .load type index => do
      let value ← load index
      check type value
      push p value
      return .next
  | .store type index => do
      let value ← pop
      check type value
      store index value
      return .next
  | .pop => do
      let _ ← pop
      return .next
  | .dup => do
      let value ← pop
      push p value
      push p value
      return .next
  | .compute op => do
      let b ← popInt
      let a ← popInt
      let result ← ofExcept (op.apply a b)
      push p (.int result)
      return .next
  | .negate => do
      let a ← popInt
      push p (.int (-a))
      return .next
  | .increment index amount => do
      let a ← checkInt (← load index)
      store index (.int (a + amount))
      return .next
  | .branch distance => do
      branch p i distance
      return .next
  | .branchZero comparison distance => do
      let a ← popInt
      branchWhen p i (comparison.holds a 0) distance
      return .next
  | .branchInts comparison distance => do
      let b ← popInt
      let a ← popInt
      branchWhen p i (comparison.holds a b) distance
      return .next
  | .branchSame same distance => do
      let b ← popReference
      let a ← popReference
      branchWhen p i ((a == b) == same) distance
      return .next
  | .branchNull null distance => do
      let a ← popReference
      branchWhen p i ((a == .null) == null) distance
      return .next
  | .allocate classIndex => do
      let value ← allocate classIndex
      push p value
      return .next
  | .returnValue type => do
      let value ← pop
      check type value
      setReturned value
      return .halt
  | .returnVoid => return .halt
  | .unhandled =>
      match policy with
      | .skip => return .next
      | .fail => throw (.unhandledOpcode i.opcode)

/-- Executes an instruction, whose successor is already the next one. -/
def evaluate (p : Program) (policy : UnhandledPolicy) (i : Instruction) : Execution Flow :=
  match i.action? with
  | some action => perform p policy i action
  | none => throw (.missingOperands i.opcode)

/-- Fetches the next instruction and executes it.  The end of the bytecode comes
before the budget, and an instruction that the budget does not cover is not
counted. -/
def fetch (p : Program) (config : Config) : Execution Flow := fun m =>
  if p.codeSize ≤ m.pc then
    .ok .halt m
  else
    match p.instructionAt? m.pc with
    | none => .error (.invalidBranch m.pc) m
    | some i =>
        match config.exhaustedLimit? m.executed with
        | some limit => .error (.budgetExhausted limit) m
        | none =>
            evaluate p config.unhandled i
              { m with executed := m.executed + 1, pc := i.nextOffset }

end Execution

end ClassMachine
