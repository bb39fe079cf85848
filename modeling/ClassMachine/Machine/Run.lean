import ClassMachine.Machine.Execute

/-!
# Runs

A step executes one instruction and says whether the machine is still running; a
halted machine answers every step as it did when it halted.  A run is a row of
steps up to the halt.  Since a run need not end, `runFor` takes a bound on the
number of steps.
-/

namespace ClassMachine

namespace Machine

/-- Whether the machine runs on, or the fault that halted it. -/
abbrev Stepper := EStateM Fault Machine

/-- Records how an execution that started at `pc` came out. -/
def settle (p : Program) (pc : Nat) :
    EStateM.Result FaultCause Machine Flow → EStateM.Result Fault Machine Bool
  | .ok .next m => .ok true m
  | .ok .halt m => .ok false { m with status := .halted .normal }
  | .error cause m =>
      let fault := Fault.mk cause pc (p.lineFor? pc)
      .error fault { m with status := .halted (.faulted fault) }

def step (p : Program) (config : Config) : Stepper Bool := fun m =>
  match m.status with
  | .halted .normal => .ok false m
  | .halted (.faulted fault) => .error fault m
  | .ready | .running =>
      settle p m.pc (Execution.fetch p config { m with status := .running })

/-- At most `bound` steps; the result tells whether the machine is still running. -/
def runFor (p : Program) (config : Config) : (bound : Nat) → Stepper Bool
  | 0 => return true
  | bound + 1 => do
      if ← step p config then
        runFor p config bound
      else
        return false

/-- The machine that a stepping left behind, however it came out. -/
def after (stepper : Stepper α) (m : Machine) : Machine :=
  match stepper m with
  | .ok _ m => m
  | .error _ m => m

end Machine

end ClassMachine
