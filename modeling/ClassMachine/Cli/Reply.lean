import ClassMachine.Machine.Outcome
import ClassMachine.Program.LoadError

/-!
# Replies of the command line

What the program prints for an outcome and for an error, and its exit code.  A
fault is reported after the outcome that it led to.  A report gives an error and
then, indented, its cause.
-/

namespace ClassMachine

structure Reply where
  exitCode : UInt8
  output : String
  /-- What goes to the error stream. -/
  report : Option String
  deriving DecidableEq, Repr

namespace Outcome

def summary (outcome : Outcome) : String :=
  let stack := "stack: [" ++ ", ".intercalate (outcome.stack.toList.map Value.text) ++ "]\n"
  let objects := "heap objects: " ++ toString outcome.objects.size ++ "\n"
  let returned :=
    match outcome.returned with
    | some value => "returned: " ++ value.text ++ "\n"
    | none => ""
  stack ++ objects ++ returned ++
    "instructions executed: " ++ toString outcome.instructionsExecuted ++ "\n"

end Outcome

namespace Reply

def version : Reply := ⟨0, "lava 0.1.0\n", none⟩

def help : Reply :=
  ⟨0, "Usage: lava [OPTIONS] <CLASS_FILE>\n", none⟩

def wrongUsage : Reply := ⟨2, "", none⟩

def reportText (error cause : String) : String :=
  "Error: " ++ error ++ "\n\nCaused by:\n    " ++ cause ++ "\n"

def ofLoadError (error : LoadError) : Reply :=
  ⟨1, "", some (reportText error.message error.reason)⟩

def ofOutcome (outcome : Outcome) : Reply :=
  match outcome.halt with
  | .normal => ⟨0, outcome.summary, none⟩
  | .faulted fault =>
      ⟨1, outcome.summary, some (reportText fault.message fault.cause.message)⟩

end Reply

end ClassMachine
