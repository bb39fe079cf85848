import ClassMachine.Format.Error

/-!
# Errors before a run

A run cannot start without a file, without a class in it, or without an entry
method in that.  The message names the area of the error in front of its reason.
-/

namespace ClassMachine

inductive FileError where
  | missing
  | notDirectory
  | directory
  | denied
  | noDevice
  | nameTooLong
  | linkLoop
  | other (reason : String)
  deriving DecidableEq, Repr

namespace FileError

def message : FileError → String
  | .missing => "No such file or directory (os error 2)"
  | .notDirectory => "Not a directory (os error 20)"
  | .directory => "Is a directory (os error 21)"
  | .denied => "Permission denied (os error 13)"
  | .noDevice => "No such device or address (os error 6)"
  | .nameTooLong => "File name too long (os error 36)"
  | .linkLoop => "Too many levels of symbolic links (os error 40)"
  | .other reason => reason

end FileError

/-- A part of a class that a run cannot do without. -/
inductive MissingPart where
  | main
  | code (method : String)
  deriving DecidableEq, Repr

namespace MissingPart

def message : MissingPart → String
  | .main => "main method not found"
  | .code method => "method \"" ++ method ++ "\" has no Code attribute"

end MissingPart

inductive LoadError where
  | file (error : FileError)
  | format (error : FormatError)
  | notFound (part : MissingPart)
  deriving DecidableEq, Repr

namespace LoadError

/-- The reason without its area. -/
def reason : LoadError → String
  | .file error => error.message
  | .format error => error.message
  | .notFound part => part.message

def area : LoadError → String
  | .file _ => "I/O error"
  | .format _ => "format error"
  | .notFound _ => "not found"

def message (error : LoadError) : String :=
  error.area ++ ": " ++ error.reason

end LoadError

end ClassMachine
