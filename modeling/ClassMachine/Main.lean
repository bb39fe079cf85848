import ClassMachine.Launch

/-!
# The command line program
-/

open ClassMachine

/-- The number of a system error, which some calls report with its sign turned. -/
def systemNumber (code : UInt32) : Nat :=
  code.toInt32.toInt.natAbs

def fileErrorOf (error : IO.Error) : FileError :=
  match error with
  | .noFileOrDirectory .. => .missing
  | .permissionDenied .. => .denied
  | .inappropriateType _ code _ | .invalidArgument _ code _ | .noSuchThing _ code _ =>
      match systemNumber code with
      | 6 => .noDevice
      | 20 => .notDirectory
      | 21 => .directory
      | 36 => .nameTooLong
      | 40 => .linkLoop
      | _ => .other (toString error)
  | _ => .other (toString error)

def readBytes (path : String) : IO (Except FileError (List UInt8)) := do
  try
    return .ok (← IO.FS.readBinFile path).data.toList
  catch error =>
    return .error (fileErrorOf error)

def main (arguments : List String) : IO UInt32 := do
  let reply ← answer readBytes arguments
  IO.print reply.output
  if let some report := reply.report then
    IO.eprint report
  return reply.exitCode.toUInt32
