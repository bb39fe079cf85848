import ClassMachine.Bytes.Reader

/-!
# Attributes

An attribute is a name, given by its index in the constant pool, and a payload
that is kept as bytes until someone asks for its meaning.  Its written form has
the length of the payload in four bytes.
-/

namespace ClassMachine

structure Attribute where
  nameIndex : UInt16
  info : List UInt8
  deriving DecidableEq, Repr

namespace Attribute

/-- The length of the payload, as it is written. -/
def length (a : Attribute) : UInt32 := UInt32.ofNat a.info.length

def minSize : Nat := 6

def read : Reader Attribute := do
  let nameIndex ← Reader.u16 "attribute name index"
  let length ← Reader.word 4 "attribute length"
  let info ← Reader.bytes length "attribute info"
  return { nameIndex, info }

def readList : Reader (List Attribute) :=
  Reader.counted "attributes count" minSize read

def toBytes (a : Attribute) : List UInt8 :=
  BigEndian.toBytes 2 a.nameIndex.toNat ++ BigEndian.toBytes 4 a.info.length ++ a.info

def listToBytes (attributes : List Attribute) : List UInt8 :=
  BigEndian.toBytes 2 attributes.length ++ attributes.flatMap toBytes

end Attribute

end ClassMachine
