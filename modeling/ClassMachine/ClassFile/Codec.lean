import ClassMachine.ClassFile.Basic
import ClassMachine.Pool.Codec

/-!
# The written form of class files

Reading goes once through the bytes, from the magic number to the class
attributes, and refuses bytes that are left over.  Writing puts the same parts in
the same order; a count that does not fit in its two bytes wraps around while its
items are written in full.
-/

namespace ClassMachine

namespace ClassFile

/-- The number that every class file starts with. -/
def magicNumber : UInt32 := 0xCAFEBABE

def interfaceSize : Nat := 2

def readMagic : Reader UInt32 := do
  let magic ← Reader.u32 "magic"
  if magic = magicNumber then
    return magic
  else
    throw (.invalidMagic magic)

def read : Reader ClassFile := do
  let magic ← readMagic
  let minorVersion ← Reader.u16 "minor version"
  let majorVersion ← Reader.u16 "major version"
  let pool ← Pool.read
  let accessFlags ← Reader.u16 "access flags"
  let thisClass ← Reader.u16 "this class"
  let superClass ← Reader.u16 "super class"
  let interfaces ←
    Reader.counted "interfaces count" interfaceSize (Reader.u16 "interface index")
  let fields ← Member.readList "fields count"
  let methods ← Member.readList "methods count"
  let attributes ← Attribute.readList
  return { magic, minorVersion, majorVersion, pool, accessFlags, thisClass, superClass,
           interfaces, fields, methods, attributes }

/-- The class file that is all of `bytes`, with the given treatment of counts. -/
def parseWith (check : CountCheck) (bytes : List UInt8) : Except FormatError ClassFile := do
  let (c, rest) ← read.read check bytes
  if rest.isEmpty then
    return c
  else
    throw (.trailingBytes rest.length)

def parse (bytes : List UInt8) : Except FormatError ClassFile :=
  parseWith .upFront bytes

def toBytes (c : ClassFile) : List UInt8 :=
  BigEndian.toBytes 4 c.magic.toNat ++ BigEndian.toBytes 2 c.minorVersion.toNat ++
    BigEndian.toBytes 2 c.majorVersion.toNat ++ c.pool.toBytes ++
    BigEndian.toBytes 2 c.accessFlags.toNat ++ BigEndian.toBytes 2 c.thisClass.toNat ++
    BigEndian.toBytes 2 c.superClass.toNat ++
    (BigEndian.toBytes 2 c.interfaces.length ++
      c.interfaces.flatMap fun index => BigEndian.toBytes 2 index.toNat) ++
    Member.listToBytes c.fields ++ Member.listToBytes c.methods ++
    Attribute.listToBytes c.attributes

end ClassFile

end ClassMachine
