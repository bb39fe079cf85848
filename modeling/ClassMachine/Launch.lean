import ClassMachine.ClassFile.Codec
import ClassMachine.Cli.Arguments
import ClassMachine.Cli.Reply
import ClassMachine.Machine.Run
import ClassMachine.Program.Entry

/-!
# Launching runs

The outer layer: runs without a bound on their steps, and the command line on top
of them.  Everything that it decides is decided by the functions that it calls.
-/

namespace ClassMachine

/-- One step: the outcome, if the machine has halted then, or the machine to go on with. -/
def advance (p : Program) (config : Config) (m : Machine) : Machine ⊕ Outcome :=
  let m := Machine.after (Machine.step p config) m
  match m.outcome? with
  | some outcome => .inr outcome
  | none => .inl m

/-- Steps a machine until it halts.  Of a machine that never does, nothing is known. -/
def runToHalt (p : Program) (config : Config) (m : Machine) : Outcome :=
  Id.run (repeatM (fun m => return advance p config m) m)

def launch (bytes : List UInt8) (config : Config) : Except LoadError (ClassFile × Outcome) := do
  let c ← (ClassFile.parse bytes).mapError LoadError.format
  let p ← Program.ofClassFile c
  return (c, runToHalt p config (.initial p))

/-- Answers a command line, with a way to read files. -/
def answer [Monad m] (readFile : String → m (Except FileError (List UInt8)))
    (arguments : List String) : m Reply := do
  match Arguments.parse arguments with
  | none => return .wrongUsage
  | some .version => return .version
  | some .help => return .help
  | some (.run path config) =>
      let launched := ((← readFile path).mapError LoadError.file).bind (launch · config)
      match launched with
      | .error error => return .ofLoadError error
      | .ok (_, outcome) => return .ofOutcome outcome

end ClassMachine
