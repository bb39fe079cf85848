import ClassMachine.Machine.Basic

/-!
# Command line arguments

One file is given, and at most once each the option `--strict` and the option
`--max-instructions` with a limit, which follows as the next argument or after an
equals sign.  After `--` every argument is a file.  A request for the version or
for help is answered as soon as it is reached, whatever comes after it, unless
something before it was wrong.
-/

namespace ClassMachine

/-- What a command line asks for. -/
inductive Invocation where
  | version
  | help
  | run (path : String) (config : Config)
  deriving DecidableEq, Repr

namespace Arguments

structure Given where
  path : Option String
  strict : Bool
  limit : Option Nat
  deriving DecidableEq, Repr

namespace Given

def nothing : Given := ⟨none, false, none⟩

/-- Takes a file, which must be the only one and have a name. -/
def addPath (given : Given) (path : String) : Option Given :=
  if given.path.isSome || path.isEmpty then none else some { given with path := some path }

def addStrict (given : Given) : Option Given :=
  if given.strict then none else some { given with strict := true }

def addLimit (given : Given) (limit : Nat) : Option Given :=
  if given.limit.isSome then none else some { given with limit := some limit }

def invocation (given : Given) : Option Invocation :=
  given.path.map fun path =>
    .run path ⟨if given.strict then .fail else .skip, given.limit⟩

end Given

/-- A limit is written in decimal digits, with or without a plus sign, and fits in
64 bits. -/
def limit? (text : String) : Option Nat :=
  let digits :=
    match text.toList with
    | '+' :: rest => rest
    | cs => cs
  if digits.isEmpty || !digits.all Char.isDigit then none
  else
    let n := digits.foldl (fun n c => n * 10 + (c.toNat - '0'.toNat)) 0
    if n < UInt64.size then some n else none

/-- Whether an argument is an option and not a file or a limit. -/
def isOption (argument : String) : Bool :=
  argument.startsWith "-" && argument != "-"

def parsePaths (given : Given) : List String → Option Given
  | [] => some given
  | path :: rest => (given.addPath path).bind fun given => parsePaths given rest

def limitOption : String := "--max-instructions"

/-- The text after the equals sign of a limit option. -/
def attachedLimit? (argument : String) : Option String :=
  let start := (limitOption ++ "=").toList
  if start.isPrefixOf argument.toList then
    some (String.ofList (argument.toList.drop start.length))
  else
    none

def parseFrom (given : Given) : List String → Option Invocation
  | [] => given.invocation
  | argument :: rest =>
      if argument == "--" then (parsePaths given rest).bind (·.invocation)
      else if argument == "--version" || argument.startsWith "-V" then some .version
      else if argument == "--help" || argument.startsWith "-h" then some .help
      else if argument == "--strict" then
        given.addStrict.bind fun given => parseFrom given rest
      else if argument == limitOption then
        match rest with
        | [] => none
        | value :: rest =>
            if isOption value then none
            else ((limit? value).bind given.addLimit).bind fun given => parseFrom given rest
      else
        match attachedLimit? argument with
        | some value =>
            ((limit? value).bind given.addLimit).bind fun given => parseFrom given rest
        | none =>
            if isOption argument then none
            else (given.addPath argument).bind fun given => parseFrom given rest

/-- What the arguments ask for, if they are well formed. -/
def parse (arguments : List String) : Option Invocation :=
  parseFrom .nothing arguments

end Arguments

end ClassMachine
