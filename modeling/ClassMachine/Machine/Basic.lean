import ClassMachine.Heap
import ClassMachine.Machine.Fault
import ClassMachine.Program.Basic

/-!
# Machines

The state of a run: the offset of the next instruction, the operand stack with its
bottom first, the local variables, the heap, and what is recorded of the run so
far.  A machine is ready until its first step, then running until it halts.
-/

namespace ClassMachine

/-- What to do at an opcode without a meaning. -/
inductive UnhandledPolicy where
  /-- Go on with the next instruction, and leave the operand stack as it is. -/
  | skip
  | fail
  deriving DecidableEq, Repr

structure Config where
  unhandled : UnhandledPolicy
  /-- How many instructions may be executed, if there is a limit. -/
  maxInstructions : Option Nat
  deriving DecidableEq, Repr

namespace Config

/-- The limit, when that many instructions have been executed. -/
def exhaustedLimit? (config : Config) (executed : Nat) : Option Nat :=
  config.maxInstructions.filter (· ≤ executed)

end Config

inductive Halt where
  /-- The run returned, or came to the end of the bytecode. -/
  | normal
  | faulted (fault : Fault)
  deriving DecidableEq, Repr, Inhabited

inductive Status where
  | ready
  | running
  | halted (halt : Halt)
  deriving DecidableEq, Repr

structure Machine where
  pc : Nat
  stack : Array Value
  locals : Array (Option Value)
  heap : Heap
  status : Status
  executed : Nat
  returned : Option Value
  deriving DecidableEq, Repr

namespace Machine

def initial (p : Program) : Machine :=
  { pc := 0
    stack := #[]
    locals := p.initialLocals
    heap := .empty
    status := .ready
    executed := 0
    returned := none }

end Machine

end ClassMachine
