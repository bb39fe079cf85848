import ClassMachine.Code.Basic
import ClassMachine.Member
import ClassMachine.Pool.Basic

/-!
# Class files

A class as it is stored: version, constant pool, flags, the pool indices of its
own name, of its super class and of its interfaces, and its members and
attributes.  Names are looked up in the pool when someone asks for them.
-/

namespace ClassMachine

structure ClassFile where
  magic : UInt32
  minorVersion : UInt16
  majorVersion : UInt16
  pool : Pool
  accessFlags : UInt16
  thisClass : UInt16
  superClass : UInt16
  interfaces : List UInt16
  fields : List Member
  methods : List Member
  attributes : List Attribute
  deriving DecidableEq, Repr

namespace Member

def name? (m : Member) (pool : Pool) : Option String :=
  pool.text? m.nameIndex

def descriptor? (m : Member) (pool : Pool) : Option String :=
  pool.text? m.descriptorIndex

/-- The first attribute that is named as code. -/
def codeAttribute? (m : Member) (pool : Pool) : Option Attribute :=
  m.attributes.find? fun a => pool.text? a.nameIndex == some Code.attributeName

/-- Abstract and native methods have no code. -/
def hasCode (m : Member) (pool : Pool) : Bool :=
  (m.codeAttribute? pool).isSome

end Member

namespace ClassFile

def className? (c : ClassFile) : Option String :=
  c.pool.className? c.thisClass

def superClassName? (c : ClassFile) : Option String :=
  c.pool.className? c.superClass

/-- The first method of a name. -/
def findMethod? (c : ClassFile) (name : String) : Option Member :=
  c.methods.find? fun m => m.name? c.pool == some name

end ClassFile

end ClassMachine
