import ClassMachine.Constant.Codec
import ClassMachine.Pool.Basic

/-!
# The written form of constant pools

The number of slots in two bytes, then the constants in order.  Empty slots are
not written: reading knows from each constant whether one follows.
-/

namespace ClassMachine

namespace Pool

/-- The least number of bytes that a slot stands for: the tag and the length of an
empty text. -/
def minSlotSize : Nat := 3

/-- Fills `remaining` more slots.  A wide constant takes two of them, or the last
one alone. -/
def readSlots : (remaining : Nat) → Array (Option Constant) → Reader (Array (Option Constant))
  | 0, slots => return slots
  | remaining + 1, slots => do
      let constant ← Constant.read slots.size
      let slots := slots.push (some constant)
      if constant.isWide then
        match remaining with
        | 0 => return slots
        | remaining + 1 => readSlots remaining (slots.push none)
      else
        readSlots remaining slots

def read : Reader Pool := do
  let count ← Reader.word 2 "constant pool count"
  Reader.checkCount "constant pool" (count - 1) minSlotSize
  if count = 0 then
    return ⟨#[]⟩
  else
    return ⟨← readSlots (count - 1) #[none]⟩

def toBytes (pool : Pool) : List UInt8 :=
  BigEndian.toBytes 2 pool.size ++ pool.constants.flatMap Constant.toBytes

end Pool

end ClassMachine
