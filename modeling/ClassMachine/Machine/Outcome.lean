import ClassMachine.Machine.Basic

/-!
# Outcomes

What a run leaves behind: how it ended, and what the machine held at that time.
Only a machine that has halted has an outcome.
-/

namespace ClassMachine

structure Outcome where
  halt : Halt
  stack : Array Value
  locals : Array (Option Value)
  objects : Array Object
  returned : Option Value
  instructionsExecuted : Nat
  deriving DecidableEq, Repr, Inhabited

namespace Outcome

def isNormal (outcome : Outcome) : Bool :=
  outcome.halt == .normal

def top? (outcome : Outcome) : Option Value :=
  outcome.stack.back?

end Outcome

namespace Machine

def outcome? (m : Machine) : Option Outcome :=
  match m.status with
  | .halted halt =>
      some {
        halt
        stack := m.stack
        locals := m.locals
        objects := m.heap.objects
        returned := m.returned
        instructionsExecuted := m.executed }
  | .ready | .running => none

end Machine

end ClassMachine
