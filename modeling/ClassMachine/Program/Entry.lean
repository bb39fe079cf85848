import ClassMachine.ClassFile.Basic
import ClassMachine.Descriptor.Parse
import ClassMachine.Program.Basic
import ClassMachine.Program.LoadError

/-!
# The entry method

A run starts in the first method named `main`.  Without such a method, without
code, or with code that does not decode there is nothing to run.  A descriptor or
a line table that does not parse is no reason to refuse: the arguments then count
as none, and the lines as unknown.
-/

namespace ClassMachine

namespace Member

/-- The code of a method, decoded from its first attribute of that name. -/
def code (m : Member) (pool : Pool) : Except LoadError Code :=
  match m.codeAttribute? pool with
  | none => .error (.notFound (.code ((m.name? pool).getD "")))
  | some a => (Code.decode a.info).mapError .format

/-- The types in the descriptor of a method, when there is one and it parses. -/
def methodType? (m : Member) (pool : Pool) : Option MethodType :=
  (m.descriptor? pool).bind fun descriptor => (MethodType.ofDescriptor descriptor).toOption

end Member

namespace Program

/-- The name of the method that a run starts in. -/
def entryName : String := "main"

/-- The program of a code that decodes. -/
def ofCode (pool : Pool) (methodType : Option MethodType) (code : Code)
    (instructions : Array Instruction)
    (h : Bytecode.decode code.bytecode = .ok instructions) : Program :=
  { pool
    methodType
    code
    lines := (code.lineNumbers pool).toOption.getD []
    instructions
    decode_eq := h }

def ofMethod (pool : Pool) (m : Member) : Except LoadError Program :=
  match m.code pool with
  | .error error => .error error
  | .ok code =>
      match h : Bytecode.decode code.bytecode with
      | .error error => .error (.format error)
      | .ok instructions => .ok (ofCode pool (m.methodType? pool) code instructions h)

def ofClassFile (c : ClassFile) : Except LoadError Program :=
  match c.findMethod? entryName with
  | none => .error (.notFound .main)
  | some m => ofMethod c.pool m

end Program

end ClassMachine
