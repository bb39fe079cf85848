import ClassMachine.Attribute

/-!
# The code of a method

The payload of a method's code attribute: the bounds of its frame, its bytecode,
the rows of its exception table, and attributes of its own.  Reading it ignores
bytes that follow the last attribute.
-/

namespace ClassMachine

/-- A range of bytecode offsets and where an exception thrown there is handled. -/
structure ExceptionRow where
  startPc : UInt16
  endPc : UInt16
  handlerPc : UInt16
  catchType : UInt16
  deriving DecidableEq, Repr

namespace ExceptionRow

/-- A row without a type catches every exception. -/
def isCatchAll (row : ExceptionRow) : Bool :=
  row.catchType == 0

def size : Nat := 8

def read : Reader ExceptionRow := do
  let startPc ← Reader.u16 "exception start pc"
  let endPc ← Reader.u16 "exception end pc"
  let handlerPc ← Reader.u16 "exception handler pc"
  let catchType ← Reader.u16 "exception catch type"
  return { startPc, endPc, handlerPc, catchType }

def toBytes (row : ExceptionRow) : List UInt8 :=
  BigEndian.toBytes 2 row.startPc.toNat ++ BigEndian.toBytes 2 row.endPc.toNat ++
    BigEndian.toBytes 2 row.handlerPc.toNat ++ BigEndian.toBytes 2 row.catchType.toNat

end ExceptionRow

structure Code where
  maxStack : UInt16
  maxLocals : UInt16
  bytecode : List UInt8
  exceptionTable : List ExceptionRow
  attributes : List Attribute
  deriving DecidableEq, Repr

namespace Code

def attributeName : String := "Code"

def read : Reader Code := do
  let maxStack ← Reader.u16 "code max stack"
  let maxLocals ← Reader.u16 "code max locals"
  let length ← Reader.word 4 "code length"
  let bytecode ← Reader.bytes length "bytecode"
  let exceptionTable ← Reader.counted "exception table length" ExceptionRow.size ExceptionRow.read
  let attributes ← Attribute.readList
  return { maxStack, maxLocals, bytecode, exceptionTable, attributes }

/-- The code in the payload of an attribute, with the given treatment of counts. -/
def decodeWith (check : CountCheck) (info : List UInt8) : Except FormatError Code :=
  (read.read check info).map Prod.fst

def decode (info : List UInt8) : Except FormatError Code :=
  decodeWith .upFront info

def encode (code : Code) : List UInt8 :=
  BigEndian.toBytes 2 code.maxStack.toNat ++ BigEndian.toBytes 2 code.maxLocals.toNat ++
    BigEndian.toBytes 4 code.bytecode.length ++ code.bytecode ++
    BigEndian.toBytes 2 code.exceptionTable.length ++
    code.exceptionTable.flatMap ExceptionRow.toBytes ++ Attribute.listToBytes code.attributes

/-- The attribute that holds the code, under the name at `nameIndex`. -/
def toAttribute (code : Code) (nameIndex : UInt16) : Attribute :=
  { nameIndex, info := code.encode }

end Code

end ClassMachine
