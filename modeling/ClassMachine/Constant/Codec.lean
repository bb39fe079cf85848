import ClassMachine.Bytes.Reader
import ClassMachine.Constant.Basic

/-!
# The written form of constants

A text is written as a two-byte length and its UTF-8 bytes; the length wraps
around when the text is longer than 65535 bytes.  All other payloads have a fixed
width.
-/

namespace ClassMachine

namespace Constant

/-- The payload of a text; `index` is the slot to blame for bytes that are not UTF-8. -/
def readUtf8 (index : Nat) : Reader Constant := do
  let length ← Reader.word 2 "utf8 length"
  let raw ← Reader.bytes length "utf8 bytes"
  match String.fromUTF8? (ByteArray.mk raw.toArray) with
  | some text => return .utf8 text
  | none => throw (.invalidUtf8 index)

def readPair (make : UInt16 → UInt16 → Constant) (first second : String) : Reader Constant := do
  let a ← Reader.u16 first
  let b ← Reader.u16 second
  return make a b

/-- The payload that follows a tag, for the constant in slot `index`. -/
def readPayload (index : Nat) : Tag → Reader Constant
  | .utf8 => readUtf8 index
  | .integer => do return .integer (← Reader.u32 "integer constant").toInt32
  | .float => do return .float ⟨← Reader.u32 "float constant"⟩
  | .long => do return .long (← Reader.u64 "long constant").toInt64
  | .double => do return .double ⟨← Reader.u64 "double constant"⟩
  | .classRef => do return .classRef (← Reader.u16 "class name index")
  | .string => do return .string (← Reader.u16 "string index")
  | .fieldRef => readPair .fieldRef "field ref class index" "field ref name and type"
  | .methodRef => readPair .methodRef "method ref class index" "method ref name and type"
  | .interfaceMethodRef =>
      readPair .interfaceMethodRef "interface method ref class index"
        "interface method ref name and type"
  | .nameAndType => readPair .nameAndType "name and type name index" "name and type descriptor"
  | .methodHandle => do
      let kind ← Reader.u8 "method handle kind"
      let reference ← Reader.u16 "method handle reference"
      return .methodHandle kind reference
  | .methodType => do return .methodType (← Reader.u16 "method type descriptor")
  | .dynamic => readPair .dynamic "dynamic bootstrap" "dynamic name and type"
  | .invokeDynamic =>
      readPair .invokeDynamic "invokedynamic bootstrap" "invokedynamic name and type"
  | .moduleRef => do return .moduleRef (← Reader.u16 "module name index")
  | .packageRef => do return .packageRef (← Reader.u16 "package name index")

/-- A tag and its payload, for the constant in slot `index`. -/
def read (index : Nat) : Reader Constant := do
  let byte ← Reader.u8 "constant pool tag"
  match Tag.ofByte? byte with
  | some tag => readPayload index tag
  | none => throw (.unknownTag byte index)

def indexBytes (index : UInt16) : List UInt8 :=
  BigEndian.toBytes 2 index.toNat

def payload : Constant → List UInt8
  | .utf8 text =>
      let raw := text.toUTF8.data.toList
      BigEndian.toBytes 2 raw.length ++ raw
  | .integer value => BigEndian.toBytes 4 value.toUInt32.toNat
  | .float value => BigEndian.toBytes 4 value.bits.toNat
  | .long value => BigEndian.toBytes 8 value.toUInt64.toNat
  | .double value => BigEndian.toBytes 8 value.bits.toNat
  | .classRef a | .string a | .methodType a | .moduleRef a | .packageRef a => indexBytes a
  | .fieldRef a b | .methodRef a b | .interfaceMethodRef a b | .nameAndType a b
  | .dynamic a b | .invokeDynamic a b => indexBytes a ++ indexBytes b
  | .methodHandle kind a => kind :: indexBytes a

def toBytes (constant : Constant) : List UInt8 :=
  constant.tag.byte :: constant.payload

end Constant

end ClassMachine
