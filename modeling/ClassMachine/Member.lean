import ClassMachine.Attribute

/-!
# Fields and methods

The two kinds of members of a class have one layout: flags, the pool indices of a
name and a descriptor, and attributes.
-/

namespace ClassMachine

structure Member where
  accessFlags : UInt16
  nameIndex : UInt16
  descriptorIndex : UInt16
  attributes : List Attribute
  deriving DecidableEq, Repr

namespace Member

def minSize : Nat := 8

def read : Reader Member := do
  let accessFlags ← Reader.u16 "member access flags"
  let nameIndex ← Reader.u16 "member name index"
  let descriptorIndex ← Reader.u16 "member descriptor index"
  let attributes ← Attribute.readList
  return { accessFlags, nameIndex, descriptorIndex, attributes }

def readList (part : String) : Reader (List Member) :=
  Reader.counted part minSize read

def toBytes (m : Member) : List UInt8 :=
  BigEndian.toBytes 2 m.accessFlags.toNat ++ BigEndian.toBytes 2 m.nameIndex.toNat ++
    BigEndian.toBytes 2 m.descriptorIndex.toNat ++ Attribute.listToBytes m.attributes

def listToBytes (members : List Member) : List UInt8 :=
  BigEndian.toBytes 2 members.length ++ members.flatMap toBytes

end Member

end ClassMachine
